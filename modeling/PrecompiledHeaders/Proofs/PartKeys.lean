import PrecompiledHeaders.Proofs.Identities
import PrecompiledHeaders.Proofs.ReadBack
/-! The keys of records. A key is made of everything that configures a part, files by their paths, and
of nothing else: two parts have one key exactly if they are configured alike, however the files of
either are numbered. There is no key for a part with an unknown file. -/
namespace PrecompiledHeaders

namespace FileTable

variable {t : FileTable} {ids : List FileId} {id : FileId}

theorem resolveAll_eq_error : t.resolveAll ids = .error id ↔ t.firstUnknown? ids = some id := by
  induction ids with
  | nil => simp [resolveAll, firstUnknown?]
  | cons i ids ih =>
    rw [resolveAll, firstUnknown?, List.find?_cons]
    cases hi : t.path? i with
    | none => simp
    | some p =>
      rw [firstUnknown?] at ih
      cases hrest : t.resolveAll ids with
      | error e =>
        rw [hrest] at ih
        exact ih
      | ok ps =>
        rw [hrest] at ih
        constructor
        · intro h
          cases h
        · intro h
          cases ih.mpr h

end FileTable

theorem Settings.eq_iff {s s' : Settings} : s = s' ↔
    s.toolchainArguments = s'.toolchainArguments ∧ s.macros = s'.macros ∧
      s.systemPaths = s'.systemPaths ∧ s.projectPaths = s'.projectPaths ∧
      s.language = s'.language ∧ s.version = s'.version ∧ s.extensions = s'.extensions := by
  cases s
  cases s'
  exact Settings.mk.injEq .. ▸ Iff.rfl

namespace Part

variable {p q : Part} {t u : FileTable}

theorem keyText_eq_iff : p.keyText t = q.keyText u ↔
    p.id = q.id ∧ p.settings = q.settings ∧ t.names p.headers = u.names q.headers ∧
      t.names p.sources = u.names q.sources := by
  constructor
  · exact keyText_injective
  · rintro ⟨hid, hsettings, hheaders, hsources⟩
    rw [keyText, keyText, hid, hsettings, hheaders, hsources]

/-- The first unknown file, headers before sources, is what a missing key is put down to. -/
theorem recordKey_eq_error {f : Fault} : p.recordKey t = .error f ↔
    ∃ id, t.firstUnknown? p.ownFiles = some id ∧ f = .unknownFile id := by
  rw [recordKey, ownFiles, FileTable.firstUnknown?_append]
  cases hheaders : t.resolveAll p.headers with
  | error id =>
    rw [FileTable.resolveAll_eq_error.mp hheaders]
    constructor
    · intro h
      exact ⟨id, rfl, (Except.error.inj h).symm⟩
    · rintro ⟨id', hid, rfl⟩
      rw [Option.some.inj hid]
  | ok headers =>
    have hnone : t.firstUnknown? p.headers = none :=
      FileTable.firstUnknown?_eq_none.mpr (FileTable.knows_iff.mpr
        ⟨headers, FileTable.resolveAll_eq_ok.mp hheaders⟩)
    rw [hnone, Option.none_or]
    cases hsources : t.resolveAll p.sources with
    | error id =>
      rw [FileTable.resolveAll_eq_error.mp hsources]
      constructor
      · intro h
        exact ⟨id, rfl, (Except.error.inj h).symm⟩
      · rintro ⟨id', hid, rfl⟩
        rw [Option.some.inj hid]
    | ok sources =>
      have hnone' : t.firstUnknown? p.sources = none :=
        FileTable.firstUnknown?_eq_none.mpr (FileTable.knows_iff.mpr
          ⟨sources, FileTable.resolveAll_eq_ok.mp hsources⟩)
      rw [hnone']
      constructor
      · intro h
        cases h
      · rintro ⟨id, hid, _⟩
        cases hid

/-- A part has a key exactly if its headers and sources are known. As far as the digest tells the two
texts apart, the keys of two parts are equal exactly if all that configures the parts is: the id, the
settings field by field, and the paths of the headers and of the sources, each list in its order. -/
theorem keys_agree (p q : Part) (t u : FileTable)
    (h : CollisionFree [p.keyText t, q.keyText u]) :
    ((∃ f, p.recordKey t = .error f) ↔ ∃ id ∈ p.headers ++ p.sources, t.path? id = none) ∧
    (∀ f, p.recordKey t = .error f ↔
      ∃ id, t.firstUnknown? (p.headers ++ p.sources) = some id ∧ f = .unknownFile id) ∧
    (p.Known t → q.Known u → ∃ x y, p.recordKey t = .ok x ∧ q.recordKey u = .ok y ∧
      (x = y ↔ p.id = q.id ∧
        p.settings.toolchainArguments = q.settings.toolchainArguments ∧
        p.settings.macros = q.settings.macros ∧
        p.settings.systemPaths = q.settings.systemPaths ∧
        p.settings.projectPaths = q.settings.projectPaths ∧
        t.names p.headers = u.names q.headers ∧ t.names p.sources = u.names q.sources ∧
        p.settings.language = q.settings.language ∧ p.settings.version = q.settings.version ∧
        p.settings.extensions = q.settings.extensions)) := by
  refine ⟨?_, fun f => recordKey_eq_error, fun hp hq => ?_⟩
  · constructor
    · rintro ⟨f, hf⟩
      obtain ⟨id, hid, _⟩ := recordKey_eq_error.mp hf
      exact ⟨id, List.mem_of_find?_eq_some hid, by simpa using List.find?_some hid⟩
    · rintro ⟨id, hmem, hid⟩
      apply recordKey_unknown
      intro hk
      obtain ⟨x, hx⟩ := (hk.1.append hk.2) id hmem
      rw [hid] at hx
      cases hx
  · refine ⟨p.keyIn t, q.keyIn u, recordKey_of_known hp, recordKey_of_known hq, ?_⟩
    rw [keyIn, keyIn, h.digestText_eq_iff (by simp) (by simp), keyText_eq_iff, Settings.eq_iff]
    constructor
    · rintro ⟨hid, ⟨hta, hm, hsp, hpp, hl, hv, he⟩, hh, hs⟩
      exact ⟨hid, hta, hm, hsp, hpp, hh, hs, hl, hv, he⟩
    · rintro ⟨hid, hta, hm, hsp, hpp, hh, hs, hl, hv, he⟩
      exact ⟨hid, ⟨hta, hm, hsp, hpp, hl, hv, he⟩, hh, hs⟩

/-- A part with a header and a source file. -/
def ownerPart : Part := ⟨"a", .default, [⟨0⟩], [⟨1⟩]⟩

def headerFirst : FileTable := ⟨["/a.h", "/a.cpp"], by decide⟩

/-- The same part where the files have the numbers the other way round. -/
def swappedPart : Part := ⟨"a", .default, [⟨1⟩], [⟨0⟩]⟩

def headerLast : FileTable := ⟨["/a.cpp", "/a.h"], by decide⟩

/-- The same files, all of them headers. -/
def headersOnly : Part := ⟨"a", .default, [⟨0⟩, ⟨1⟩], []⟩

theorem keys_agree_renumbered :
    CollisionFree [ownerPart.keyText headerFirst, swappedPart.keyText headerLast] ∧
    CollisionFree [ownerPart.keyText headerFirst, headersOnly.keyText headerFirst] ∧
    ∃ x y, ownerPart.recordKey headerFirst = .ok x ∧ swappedPart.recordKey headerLast = .ok x ∧
      headersOnly.recordKey headerFirst = .ok y ∧ x ≠ y := by
  have hsame : swappedPart.keyText headerLast = ownerPart.keyText headerFirst :=
    keyText_eq_iff.mpr (by decide)
  have hfree : CollisionFree [ownerPart.keyText headerFirst, swappedPart.keyText headerLast] := by
    rw [hsame]
    intro a ha b hb _
    have hall : ∀ c ∈ [ownerPart.keyText headerFirst, ownerPart.keyText headerFirst],
        c = ownerPart.keyText headerFirst := by simp
    exact (hall a ha).trans (hall b hb).symm
  have hdigests : ([ownerPart.keyText headerFirst, headersOnly.keyText headerFirst].map
      digestText).Nodup := by
    have hne : digestText (ownerPart.keyText headerFirst) ≠
        digestText (headersOnly.keyText headerFirst) := by
      rw [digestText, digestText, keyText, keyText, encode_compact, encode_compact,
        digest_eq_digestNat, digest_eq_digestNat]
      decide +kernel
    simpa using hne
  have hfree' : CollisionFree [ownerPart.keyText headerFirst, headersOnly.keyText headerFirst] :=
    List.inj_on_of_nodup_map hdigests
  have howner : ownerPart.Known headerFirst :=
    ⟨FileTable.knows_iff.mpr ⟨["/a.h"], .cons (by decide) .nil⟩,
      FileTable.knows_iff.mpr ⟨["/a.cpp"], .cons (by decide) .nil⟩⟩
  have hswapped : swappedPart.Known headerLast :=
    ⟨FileTable.knows_iff.mpr ⟨["/a.h"], .cons (by decide) .nil⟩,
      FileTable.knows_iff.mpr ⟨["/a.cpp"], .cons (by decide) .nil⟩⟩
  have hheaders : headersOnly.Known headerFirst :=
    ⟨FileTable.knows_iff.mpr ⟨["/a.h", "/a.cpp"], .cons (by decide) (.cons (by decide) .nil)⟩,
      FileTable.knows_iff.mpr ⟨[], .nil⟩⟩
  obtain ⟨x, x', hx, hx', hiff⟩ :=
    (keys_agree ownerPart swappedPart headerFirst headerLast hfree).2.2 howner hswapped
  obtain ⟨z, y, hz, hy, hiff'⟩ :=
    (keys_agree ownerPart headersOnly headerFirst headerFirst hfree').2.2 howner hheaders
  obtain rfl := Except.ok.inj (hz.symm.trans hx)
  obtain rfl := hiff.mpr (by decide)
  refine ⟨hfree, hfree', z, y, hz, hx', hy, fun h => ?_⟩
  have hnames := (hiff'.mp h).2.2.2.2.2.1
  exact absurd hnames (by decide)

end Part
end PrecompiledHeaders
