import PrecompiledHeaders.Proofs.Identities
import Mathlib.Algebra.Group.Nat.Defs
import Mathlib.Algebra.Group.Int.Defs
/-! What fingerprints tell apart. After the content a fingerprint digests paths and marks of files with
nothing between them. Builds have one fingerprint exactly if their contents and these bytes agree. The
bytes tell in which state each file was if the paths are the same on both sides, or if paths and marks
cannot be taken for one another; where they can, builds that depend on different files have one
fingerprint. -/
namespace PrecompiledHeaders
namespace Build

open Text.Utf8 (encode)

/-! ### Marks -/

/-- The stamp has 64 bits. -/
def Wide (t : Int) : Prop := Int64.minValue.toInt ≤ t ∧ t ≤ Int64.maxValue.toInt

/-- What stands for the state of a file. -/
def mark : Option Stamp → List UInt8
  | some t => stampBytes t
  | none => encode "missing"

theorem length_stampBytes (t : Stamp) : (stampBytes t).length = 8 := by
  rw [stampBytes, List.length_map, List.length_range]

/-- The lowest bytes of a number tell its residue. -/
theorem mod_eq_of_bytes {m n : Nat} (k : Nat)
    (h : ∀ i < k, (m >>> (8 * i)).toUInt8 = (n >>> (8 * i)).toUInt8) :
    m % 256 ^ k = n % 256 ^ k := by
  induction k with
  | zero => rw [Nat.pow_zero, Nat.mod_one, Nat.mod_one]
  | succ k ih =>
    have hbyte := congrArg UInt8.toNat (h k (Nat.lt_succ_self k))
    simp only [Nat.toUInt8_eq, UInt8.toNat_ofNat', Nat.shiftRight_eq_div_pow, Nat.pow_mul] at hbyte
    rw [Nat.mod_pow_succ, Nat.mod_pow_succ, ih fun i hi => h i (Nat.lt_succ_of_lt hi), hbyte]

theorem stampBytes_inj {t u : Int} (ht : Wide t) (hu : Wide u) (h : stampBytes t = stampBytes u) :
    t = u := by
  have hbytes : ∀ i < 8, ((t % UInt64.size).toNat >>> (8 * i)).toUInt8 =
      ((u % UInt64.size).toNat >>> (8 * i)).toUInt8 := by
    intro i hi
    exact List.map_inj_left.mp h i (List.mem_range.mpr hi)
  have hmod := mod_eq_of_bytes 8 hbytes
  have hmin : Int64.minValue.toInt = -9223372036854775808 := rfl
  have hmax : Int64.maxValue.toInt = 9223372036854775807 := rfl
  have hsize : (UInt64.size : Int) = 18446744073709551616 := rfl
  rw [Wide, hmin, hmax] at ht hu
  rw [hsize] at hmod
  omega

/-- A stamp before the year 2043: its highest byte is a control character. -/
def Early (t : Int) : Prop := 0 ≤ t ∧ t < 2 ^ 61

theorem Early.wide {t : Int} (h : Early t) : Wide t := by
  have hmin : Int64.minValue.toInt = -9223372036854775808 := rfl
  have hmax : Int64.maxValue.toInt = 9223372036854775807 := rfl
  obtain ⟨h0, h1⟩ := h
  rw [Wide, hmin, hmax]
  omega

theorem Early.stampBytes {t : Int} (h : Early t) :
    ∃ front b, stampBytes t = front ++ [b] ∧ b < 32 := by
  refine ⟨(List.range 7).map fun i => ((t % UInt64.size).toNat >>> (8 * i)).toUInt8,
    ((t % UInt64.size).toNat >>> 56).toUInt8, ?_, ?_⟩
  · rw [Build.stampBytes, List.range_succ, List.map_append]
    rfl
  · obtain ⟨h0, h1⟩ := h
    have hsize : (UInt64.size : Int) = 18446744073709551616 := rfl
    rw [UInt8.lt_iff_toNat_lt, Nat.toUInt8_eq, UInt8.toNat_ofNat', Nat.shiftRight_eq_div_pow, hsize]
    show _ < 32
    omega

/-! ### Words -/

def missing : List UInt8 := [109, 105, 115, 115, 105, 110, 103]

theorem encode_missing : encode "missing" = missing := by decide +kernel

theorem encode_base : encode "base" = [98, 97, 115, 101] := by decide +kernel

theorem encode_noBase : encode "no-base" = [110, 111, 45, 98, 97, 115, 101] := by decide +kernel

/-- The bytes of an absolute path without control characters in which the word `missing` does not
occur. -/
structure Legible (p : List UInt8) : Prop where
  rooted : p.head? = some 47
  printed : ∀ b ∈ p, 32 ≤ b
  wordless : ¬ missing <:+: p

variable {p q u z z' : List UInt8} {m m' : Option Stamp}

theorem Legible.ne_nil (h : Legible p) : p ≠ [] := by
  rintro rfl
  cases h.rooted

theorem Legible.slash_mem (h : Legible p) : 47 ∈ p := List.mem_of_mem_head? h.rooted

theorem Legible.left (h : Legible (p ++ q)) (hp : p ≠ []) : Legible p := by
  refine ⟨?_, fun b hb => h.printed b (List.mem_append_left _ hb), fun hword => ?_⟩
  · rw [← List.head?_append_of_ne_nil p hp]
    exact h.rooted
  · exact h.wordless (hword.trans (List.prefix_append p q).isInfix)

/-- No path begins inside a mark. -/
theorem Legible.not_suffix_mark (h : Legible u) (hm : ∀ t, m = some t → Early t) :
    ¬ u <:+ z ++ mark m := by
  intro hsuffix
  cases m with
  | some t =>
    obtain ⟨front, b, hbytes, hb⟩ := (hm t rfl).stampBytes
    rw [mark, hbytes, ← List.append_assoc, List.suffix_concat_iff] at hsuffix
    rcases hsuffix with hnil | ⟨v, rfl, _⟩
    · exact h.ne_nil hnil
    · exact absurd (h.printed b (by simp)) (by simpa using hb)
  | none =>
    rw [mark, encode_missing] at hsuffix
    rcases List.suffix_or_suffix_of_suffix hsuffix (List.suffix_append z missing) with hin | hin
    · exact absurd (hin.subset h.slash_mem) (by decide)
    · exact h.wordless hin.isInfix

/-- The last bytes of the stamp are not the word `missing`. -/
def Ends (t : Int) : Prop := Wide t ∧ ¬ missing <:+ stampBytes t

theorem Early.ends {t : Int} (h : Early t) : Ends t := by
  refine ⟨h.wide, fun hsuffix => ?_⟩
  obtain ⟨front, b, hbytes, hb⟩ := h.stampBytes
  have hsplit : missing = [109, 105, 115, 115, 105, 110] ++ [103] := rfl
  rw [hbytes, hsplit] at hsuffix
  obtain ⟨z, hz⟩ := hsuffix
  rw [← List.append_assoc] at hz
  rw [← List.singleton_inj.mp (List.append_inj' hz rfl).2] at hb
  exact absurd hb (by decide)

/-- Marks are read from the end. -/
theorem mark_inj (hm : ∀ t, m = some t → Ends t) (hm' : ∀ t, m' = some t → Ends t)
    (h : z ++ mark m = z' ++ mark m') : z = z' ∧ m = m' := by
  have hmixed : ∀ {t : Stamp} {z z' : List UInt8}, Ends t →
      z ++ mark (some t) ≠ z' ++ mark none := by
    intro t z z' ht he
    rw [mark, mark, encode_missing] at he
    refine ht.2 (List.suffix_of_suffix_length_le (he ▸ List.suffix_append z' missing)
      (List.suffix_append z _) ?_)
    rw [length_stampBytes]
    decide
  cases m with
  | some t =>
    cases m' with
    | some t' =>
      obtain ⟨hz, hbytes⟩ := List.append_inj' h (by
        rw [mark, mark, length_stampBytes, length_stampBytes])
      exact ⟨hz, congrArg some (stampBytes_inj (hm t rfl).1 (hm' t' rfl).1 hbytes)⟩
    | none => exact absurd h (hmixed (hm t rfl))
  | none =>
    cases m' with
    | some t' => exact absurd h.symm (hmixed (hm' t' rfl))
    | none => exact ⟨List.append_cancel_right h, rfl⟩

/-! ### Surroundings -/

/-- What a build depends on besides its content: the sources and the header that is built upon, each
with its state. -/
structure Surroundings where
  sources : List (String × Option Stamp)
  base : Option (String × Option Stamp)
  deriving DecidableEq, Repr

/-- A file in its state. -/
def entry (e : String × Option Stamp) : List UInt8 := encode e.1 ++ mark e.2

def entries (es : List (String × Option Stamp)) : List UInt8 := es.flatMap entry

theorem entries_append (es fs : List (String × Option Stamp)) :
    entries (es ++ fs) = entries es ++ entries fs := List.flatMap_append

theorem entries_singleton (e : String × Option Stamp) : entries [e] = entry e := by
  rw [entries, List.flatMap_singleton]

/-- What is built upon comes last. -/
def baseEntry : Option (String × Option Stamp) → List UInt8
  | some e => encode "base" ++ entry e
  | none => encode "no-base"

namespace Surroundings

def bytes (x : Surroundings) : List UInt8 := entries x.sources ++ baseEntry x.base

/-- All files that are depended on. -/
def files (x : Surroundings) : List (String × Option Stamp) := x.sources ++ x.base.toList

end Surroundings

/-- The path and the stamp of a file cannot be taken for one another. -/
def Distinct (e : String × Option Stamp) : Prop :=
  Legible (encode e.1) ∧ ∀ t, e.2 = some t → Early t

variable {es fs : List (String × Option Stamp)} {e f : String × Option Stamp}

theorem Distinct.not_suffix (hes : ∀ e ∈ es, Distinct e) (hu : Legible u) : ¬ u <:+ entries es := by
  rcases List.eq_nil_or_concat es with rfl | ⟨fs, e, rfl⟩
  · exact fun hsuffix => hu.ne_nil (List.suffix_nil.mp hsuffix)
  · rw [List.concat_eq_append, entries_append, entries_singleton, entry, ← List.append_assoc]
    exact hu.not_suffix_mark (hes e (by simp)).2

/-- The path behind these entries is read to its first byte. -/
theorem Distinct.append_inj (hes : ∀ e ∈ es, Distinct e) (hfs : ∀ e ∈ fs, Distinct e)
    (hp : Legible p) (hq : Legible q) (h : entries es ++ p = entries fs ++ q) :
    entries es = entries fs ∧ p = q := by
  have hone : ∀ {es : List (String × Option Stamp)} {z p q u : List UInt8},
      (∀ e ∈ es, Distinct e) → Legible p → entries es = z ++ u → p = u ++ q → u = [] := by
    rintro es z p q u hes hp hz rfl
    by_contra hu
    exact Distinct.not_suffix hes (hp.left hu) ⟨z, hz.symm⟩
  rcases List.append_eq_append_iff.mp h with ⟨u, hfs', rfl⟩ | ⟨u, hes', rfl⟩
  · obtain rfl := hone hfs hp hfs' rfl
    exact ⟨by rw [hfs', List.append_nil], rfl⟩
  · obtain rfl := hone hes hq hes' rfl
    exact ⟨by rw [hes', List.append_nil], rfl⟩

theorem Distinct.ends (he : Distinct e) : ∀ t, e.2 = some t → Ends t := fun t ht =>
  (he.2 t ht).ends

theorem Distinct.entry_ne_nil (he : Distinct e) : entry e ≠ [] := fun hnil =>
  he.1.ne_nil (List.append_eq_nil_iff.mp hnil).1

/-- Entries are read from the last one to the first one. -/
theorem Distinct.entries_inj (hes : ∀ e ∈ es, Distinct e) (hfs : ∀ e ∈ fs, Distinct e)
    (h : entries es = entries fs) : es = fs := by
  have hempty : ∀ (es : List (String × Option Stamp)) (e : String × Option Stamp), Distinct e →
      entries (es ++ [e]) ≠ [] := by
    intro es e he hnil
    rw [entries_append, entries_singleton] at hnil
    exact he.entry_ne_nil (List.append_eq_nil_iff.mp hnil).2
  induction es using List.reverseRecOn generalizing fs with
  | nil =>
    rcases List.eq_nil_or_concat fs with rfl | ⟨fs, f, rfl⟩
    · rfl
    · rw [List.concat_eq_append] at h hfs
      exact absurd h.symm (hempty fs f (hfs f (by simp)))
  | append_singleton es e ih =>
    rcases List.eq_nil_or_concat fs with rfl | ⟨fs, f, rfl⟩
    · exact absurd h (hempty es e (hes e (by simp)))
    · rw [List.concat_eq_append] at h hfs ⊢
      rw [List.forall_mem_append, List.forall_mem_singleton] at hes hfs
      rw [entries_append, entries_append, entries_singleton, entries_singleton, entry, entry,
        ← List.append_assoc, ← List.append_assoc] at h
      obtain ⟨hfront, hmark⟩ := mark_inj hes.2.ends hfs.2.ends h
      obtain ⟨hentries, hpath⟩ := Distinct.append_inj hes.1 hfs.1 hes.2.1 hfs.2.1 hfront
      rw [ih hes.1 hfs.1 hentries, Prod.ext (Text.Utf8.encode_injective hpath) hmark]

/-- The path behind the word `base` is read to its first byte. -/
theorem Distinct.append_base_inj (hes : ∀ e ∈ es, Distinct e) (hfs : ∀ e ∈ fs, Distinct e)
    (hp : Legible p) (hq : Legible q)
    (h : entries es ++ (encode "base" ++ p) = entries fs ++ (encode "base" ++ q)) :
    entries es = entries fs ∧ p = q := by
  have hone : ∀ {es fs : List (String × Option Stamp)} {p q u : List UInt8},
      (∀ e ∈ es, Distinct e) → Legible p →
      entries es ++ encode "base" = entries fs ++ encode "base" ++ u → p = u ++ q → u = [] := by
    rintro es fs p q u hes hp hz rfl
    by_contra hu
    have hlegible := hp.left hu
    rw [encode_base] at hz
    have hsuffix : u <:+ entries es ++ [98, 97, 115, 101] := ⟨_, hz.symm⟩
    rcases List.suffix_or_suffix_of_suffix hsuffix (List.suffix_append _ _) with hin | ⟨v, rfl⟩
    · exact absurd (hin.subset hlegible.slash_mem) (by decide)
    · rw [← List.append_assoc] at hz
      have hv : v ≠ [] := by
        rintro rfl
        exact absurd hlegible.rooted (by decide)
      exact Distinct.not_suffix hes (hlegible.left hv) ⟨_, (List.append_cancel_right hz).symm⟩
  rw [← List.append_assoc, ← List.append_assoc] at h
  rcases List.append_eq_append_iff.mp h with ⟨u, hfs', rfl⟩ | ⟨u, hes', rfl⟩
  · obtain rfl := hone hfs hp hfs' rfl
    rw [List.append_nil] at hfs'
    exact ⟨(List.append_cancel_right hfs').symm, rfl⟩
  · obtain rfl := hone hes hq hes' rfl
    rw [List.append_nil] at hes'
    exact ⟨List.append_cancel_right hes', rfl⟩

theorem Distinct.base_ne_noBase (he : Distinct e) :
    entries es ++ baseEntry (some e) ≠ entries fs ++ baseEntry none := by
  have hends : ∃ front b, mark e.2 = front ++ [b] ∧ b ≠ 101 := by
    cases hm : e.2 with
    | some t =>
      obtain ⟨front, b, hbytes, hb⟩ := (he.2 t hm).stampBytes
      exact ⟨front, b, hbytes, fun heq => absurd (heq ▸ hb) (by decide)⟩
    | none => exact ⟨[109, 105, 115, 115, 105, 110], 103, encode_missing, by decide⟩
  obtain ⟨front, b, hmark, hb⟩ := hends
  have hsplit : encode "no-base" = [110, 111, 45, 98, 97, 115] ++ [101] := encode_noBase
  intro h
  rw [baseEntry, baseEntry, entry, hmark, hsplit, ← List.append_assoc, ← List.append_assoc,
    ← List.append_assoc, ← List.append_assoc] at h
  exact hb (List.singleton_inj.mp (List.append_inj' h rfl).2)

/-- Where no path can be taken for a mark, the bytes tell everything. -/
theorem Surroundings.bytes_inj {x y : Surroundings} (hx : ∀ e ∈ x.files, Distinct e)
    (hy : ∀ e ∈ y.files, Distinct e) (h : x.bytes = y.bytes) : x = y := by
  obtain ⟨es, a⟩ := x
  obtain ⟨fs, b⟩ := y
  rw [files, List.forall_mem_append] at hx hy
  obtain ⟨hes, ha⟩ := hx
  obtain ⟨hfs, hb⟩ := hy
  rw [bytes, bytes] at h
  dsimp only at hes hfs h
  cases a with
  | none =>
    cases b with
    | none => rw [Distinct.entries_inj hes hfs (List.append_cancel_right h)]
    | some f => exact absurd h.symm (hb f (by simp)).base_ne_noBase
  | some e =>
    have he := ha e (by simp)
    cases b with
    | none => exact absurd h he.base_ne_noBase
    | some f =>
      have hf := hb f (by simp)
      rw [baseEntry, baseEntry, entry, entry, ← List.append_assoc, ← List.append_assoc,
        ← List.append_assoc, ← List.append_assoc] at h
      obtain ⟨hfront, hmark⟩ := mark_inj he.ends hf.ends h
      rw [List.append_assoc, List.append_assoc] at hfront
      obtain ⟨hentries, hpath⟩ := Distinct.append_base_inj hes hfs he.1 hf.1 hfront
      rw [Distinct.entries_inj hes hfs hentries,
        Prod.ext (Text.Utf8.encode_injective hpath) hmark]

/-! ### The same paths -/

/-- The word `missing` does not occur in the bytes of the stamp. -/
def Unspelled (t : Int) : Prop := Wide t ∧ ¬ missing <:+: stampBytes t

theorem Unspelled.ends {t : Int} (h : Unspelled t) : Ends t :=
  ⟨h.1, fun hsuffix => h.2 hsuffix.isInfix⟩

/-- Behind equal paths marks are read from the first byte. -/
theorem mark_append_inj (hm : ∀ t, m = some t → Unspelled t) (hm' : ∀ t, m' = some t → Unspelled t)
    (h : mark m ++ z = mark m' ++ z') : m = m' ∧ z = z' := by
  have hmixed : ∀ {t : Stamp} {z z' : List UInt8}, Unspelled t →
      mark (some t) ++ z ≠ mark none ++ z' := by
    intro t z z' ht he
    rw [mark, mark, encode_missing] at he
    refine ht.2 (List.prefix_of_prefix_length_le (he ▸ List.prefix_append missing z')
      (List.prefix_append _ z) ?_).isInfix
    rw [length_stampBytes]
    decide
  cases m with
  | some t =>
    cases m' with
    | some t' =>
      obtain ⟨hbytes, hz⟩ := List.append_inj h (by
        rw [mark, mark, length_stampBytes, length_stampBytes])
      exact ⟨congrArg some (stampBytes_inj (hm t rfl).1 (hm' t' rfl).1 hbytes), hz⟩
    | none => exact absurd h (hmixed (hm t rfl))
  | none =>
    cases m' with
    | some t' => exact absurd h.symm (hmixed (hm' t' rfl))
    | none => exact ⟨rfl, List.append_cancel_left h⟩

theorem entries_inj_of_paths (hes : ∀ e ∈ es, ∀ t, e.2 = some t → Unspelled t)
    (hfs : ∀ f ∈ fs, ∀ t, f.2 = some t → Unspelled t) (hpaths : es.map (·.1) = fs.map (·.1))
    (h : entries es ++ z = entries fs ++ z') : es = fs ∧ z = z' := by
  induction es generalizing fs with
  | nil =>
    obtain rfl := List.map_eq_nil_iff.mp hpaths.symm
    exact ⟨rfl, h⟩
  | cons e es ih =>
    obtain ⟨f, fs, rfl⟩ := List.exists_cons_of_ne_nil (l := fs) (by rintro rfl; cases hpaths)
    rw [List.map_cons, List.map_cons, List.cons.injEq] at hpaths
    rw [List.forall_mem_cons] at hes hfs
    have hcons : ∀ (e : String × Option Stamp) es, entries (e :: es) = entry e ++ entries es :=
      fun e es => List.flatMap_cons
    rw [hcons, hcons, entry, entry, hpaths.1, List.append_assoc, List.append_assoc,
      List.append_assoc, List.append_assoc] at h
    obtain ⟨hmark, hrest⟩ := mark_append_inj hes.1 hfs.1 (List.append_cancel_left h)
    obtain ⟨rfl, hz⟩ := ih hes.2 hfs.2 hpaths.2 hrest
    exact ⟨by rw [Prod.ext hpaths.1 hmark], hz⟩

theorem baseEntry_inj {a b : Option (String × Option Stamp)}
    (ha : ∀ e ∈ a.toList, ∀ t, e.2 = some t → Unspelled t)
    (hb : ∀ e ∈ b.toList, ∀ t, e.2 = some t → Unspelled t) (h : baseEntry a = baseEntry b) :
    a = b := by
  have hmixed : ∀ e : String × Option Stamp, baseEntry (some e) ≠ baseEntry none := by
    intro e he
    rw [baseEntry, baseEntry, encode_base, encode_noBase] at he
    cases he
  cases a with
  | none =>
    cases b with
    | none => rfl
    | some f => exact absurd h.symm (hmixed f)
  | some e =>
    cases b with
    | none => exact absurd h (hmixed e)
    | some f =>
      have hentry := List.append_cancel_left h
      obtain ⟨hpath, hmark⟩ := mark_inj (fun t ht => (ha e (by simp) t ht).ends)
        (fun t ht => (hb f (by simp) t ht).ends) hentry
      rw [Prod.ext (Text.Utf8.encode_injective hpath) hmark]

/-- Where the paths are the same and no stamp spells the word, the bytes tell everything. -/
theorem Surroundings.bytes_inj_of_paths {x y : Surroundings}
    (hx : ∀ e ∈ x.files, ∀ t, e.2 = some t → Unspelled t)
    (hy : ∀ e ∈ y.files, ∀ t, e.2 = some t → Unspelled t)
    (hpaths : x.sources.map (·.1) = y.sources.map (·.1)) (h : x.bytes = y.bytes) : x = y := by
  rw [files, List.forall_mem_append] at hx hy
  obtain ⟨hsources, hbase⟩ := entries_inj_of_paths hx.1 hy.1 hpaths h
  obtain ⟨es, a⟩ := x
  obtain ⟨fs, b⟩ := y
  obtain rfl := hsources
  obtain rfl := baseEntry_inj hx.2 hy.2 hbase
  rfl

/-! ### Fingerprints -/

variable {W : Type} [World W]

def surroundings (ws : Workspace W) (t : Task) (base : Option FilePath) : Surroundings where
  sources := (ws.files.names t.sources).map fun p => (p, World.modified? ws.world ⟨p⟩)
  base := base.map fun p => (p.text, World.modified? ws.world p)

theorem fileBytes_eq (w : W) (p : FilePath) :
    fileBytes w p = entry (p.text, World.modified? w p) := by
  rw [fileBytes, entry]
  cases World.modified? w p <;> rfl

theorem input_eq (ws : Workspace W) (s : Scope) (t : Task) (base : Option FilePath) :
    input ws.files ws.world s t base =
      encode (digestText (t.contentText s ws.files)) ++ (surroundings ws t base).bytes := by
  have hsources : (ws.files.names t.sources).flatMap (fun p => fileBytes ws.world ⟨p⟩) =
      entries (surroundings ws t base).sources := by
    rw [surroundings, entries, List.flatMap_map]
    exact List.flatMap_congr fun p _ => fileBytes_eq ws.world ⟨p⟩
  have hbase : baseBytes ws.world base = baseEntry (surroundings ws t base).base := by
    cases base with
    | none => rfl
    | some p => exact congrArg (encode "base" ++ ·) (fileBytes_eq ws.world p)
  rw [input, fingerprintBytes, hsources, hbase, List.append_assoc, Surroundings.bytes]

theorem fingerprint_of_known {ws : Workspace W} {t : Task} (ht : t.Known ws.files) (s : Scope)
    (base : Option FilePath) :
    fingerprint ws s t base = .ok (print ws.files ws.world s t base) := by
  rw [fingerprint, Task.contentDigest_of_knows (ht.mono (List.subset_append_left _ _)),
    (ht.mono (List.subset_append_right _ _)).resolveAll]
  rfl

/-- The state of every source counts. -/
theorem fingerprint_ne_of_stamp {files : FileTable} {v w : W} {s : Scope} {t : Task}
    {base : Option FilePath} (ht : t.Known files)
    (hd : Apart (digested files v s t base ++ digested files w s t base))
    (hv : ∀ e ∈ (surroundings ⟨v, files⟩ t base).files, ∀ t, e.2 = some t → Unspelled t)
    (hw : ∀ e ∈ (surroundings ⟨w, files⟩ t base).files, ∀ t, e.2 = some t → Unspelled t)
    {f : FileId} (hf : f ∈ t.sources) {path : String} (hpath : files.path? f = some path)
    (hne : World.modified? v ⟨path⟩ ≠ World.modified? w ⟨path⟩) :
    fingerprint ⟨v, files⟩ s t base ≠ fingerprint ⟨w, files⟩ s t base := by
  have hpv : fingerprint ⟨v, files⟩ s t base = _ := fingerprint_of_known ht s base
  have hpw : fingerprint ⟨w, files⟩ s t base = _ := fingerprint_of_known ht s base
  rw [hpv, hpw]
  intro he
  have hbytes : input files v s t base = input files w s t base :=
    hd _ (by simp [digested]) _ (by simp [digested]) (Except.ok.inj he)
  have hv' := input_eq ⟨v, files⟩ s t base
  have hw' := input_eq ⟨w, files⟩ s t base
  dsimp only at hv' hw'
  rw [hv', hw', List.append_cancel_left_eq] at hbytes
  have hsame := congrArg Surroundings.sources (Surroundings.bytes_inj_of_paths hv hw
    (by simp [surroundings, Function.comp_def]) hbytes)
  have hmem : path ∈ files.names t.sources := List.mem_filterMap.mpr ⟨f, hf, hpath⟩
  exact hne (Prod.ext_iff.mp (List.map_inj_left.mp hsame path hmem)).2

/-- Two tasks with known files have fingerprints. These agree exactly if scope, paths and settings of
the content agree and the bytes of the surroundings do. The bytes agree exactly if the surroundings
do where the sources have the same paths and no stamp spells the word that stands for a missing file,
and where all paths are legible and all stamps early. -/
theorem fingerprints_separate {ws ws' : Workspace W} {s s' : Scope} {t t' : Task}
    {base base' : Option FilePath} (ht : t.Known ws.files) (ht' : t'.Known ws'.files)
    (hd : Apart (digested ws.files ws.world s t base ++ digested ws'.files ws'.world s' t' base')) :
    let x := surroundings ws t base
    let x' := surroundings ws' t' base'
    let alike := s = s' ∧ ws.files.names t.includes = ws'.files.names t'.includes ∧
      t.settings = t'.settings
    ∃ print print', fingerprint ws s t base = .ok print ∧ fingerprint ws' s' t' base' = .ok print' ∧
      (print = print' ↔ alike ∧ x.bytes = x'.bytes) ∧
      (ws.files.names t.sources = ws'.files.names t'.sources →
        (∀ e ∈ x.files ++ x'.files, ∀ t, e.2 = some t → Unspelled t) →
        (print = print' ↔ alike ∧ x = x')) ∧
      ((∀ e ∈ x.files ++ x'.files, Distinct e) → (print = print' ↔ alike ∧ x = x')) := by
  intro x x' alike
  have hprints : print ws.files ws.world s t base = print ws'.files ws'.world s' t' base' ↔
      alike ∧ x.bytes = x'.bytes := by
    constructor
    · intro he
      have hbytes := hd _ (by simp [digested]) _ (by simp [digested]) he
      rw [input_eq, input_eq] at hbytes
      -- both start with 64 digits
      obtain ⟨hdigest, hrest⟩ := List.append_inj hbytes (by
        rw [digestText, digestText, length_encode_digest, length_encode_digest])
      have hcontent := hd _ (by simp [digested]) _ (by simp [digested])
        (Text.Utf8.encode_injective hdigest)
      exact ⟨Task.contentText_eq_iff.mp (Text.Utf8.encode_injective hcontent), hrest⟩
    · rintro ⟨halike, hbytes⟩
      rw [print, print, input_eq, input_eq, Task.contentText_eq_iff.mpr halike, hbytes]
  refine ⟨_, _, fingerprint_of_known ht s base, fingerprint_of_known ht' s' base', hprints,
    fun hpaths hstamps => ?_, fun hdistinct => ?_⟩
  · rw [List.forall_mem_append] at hstamps
    have hsources : x.sources.map (·.1) = x'.sources.map (·.1) := by
      simpa [x, x', surroundings, Function.comp_def] using hpaths
    exact hprints.trans (and_congr_right fun _ => ⟨Surroundings.bytes_inj_of_paths hstamps.1
      hstamps.2 hsources, congrArg Surroundings.bytes⟩)
  · rw [List.forall_mem_append] at hdistinct
    exact hprints.trans (and_congr_right fun _ => ⟨Surroundings.bytes_inj hdistinct.1 hdistinct.2,
      congrArg Surroundings.bytes⟩)

/-! Paths that run into one another. -/

open Merger (headerTask)

def nowhere : Workspace WritingBench := ⟨trialBench [] [] [], ⟨["/a.h", "/a", "/b", "/amissing/b"],
  by decide⟩⟩

def somewhere : Workspace WritingBench := ⟨trialBench ["/a.h"] [] [], nowhere.files⟩

def twoSources : Task := { headerTask ["a"] 0 with sources := [⟨1⟩, ⟨2⟩] }

def oneSource : Task := { headerTask ["a"] 0 with sources := [⟨3⟩] }

theorem known_nowhere : twoSources.Known nowhere.files ∧ oneSource.Known nowhere.files ∧
    (headerTask ["a"] 0).Known nowhere.files := by
  refine ⟨FileTable.knows_iff.mpr ⟨["/a.h", "/a", "/b"], ?_⟩,
    FileTable.knows_iff.mpr ⟨["/a.h", "/amissing/b"], ?_⟩,
    FileTable.knows_iff.mpr ⟨["/a.h", "/a.h"], ?_⟩⟩
  · exact .cons (by decide) (.cons (by decide) (.cons (by decide) .nil))
  · exact .cons (by decide) (.cons (by decide) .nil)
  · exact .cons (by decide) (.cons (by decide) .nil)

theorem legible_header : Legible (encode "/a.h") := by
  refine ⟨by decide +kernel, by decide +kernel, fun hword => ?_⟩
  exact absurd hword.length_le (by decide +kernel)

theorem run_together : (surroundings nowhere twoSources none).bytes =
    (surroundings nowhere oneSource none).bytes := by
  decide +kernel

theorem apart_nowhere :
    Apart (digested nowhere.files nowhere.world .system twoSources none ++
      digested nowhere.files nowhere.world .system oneSource none) := by
  have hcontent : digestText (twoSources.contentText .system nowhere.files) = _ :=
    evaluated.contentA
  have hprint : print nowhere.files nowhere.world .system twoSources none =
      "d76fb43dd8cdcf31c6cd1b0abdd87bf99c1eabd4da9ae8b5ae5d1dbda988b314" := by
    rw [print, input, hcontent, digest_eq_digestNat]
    decide +kernel
  have hsame : digested nowhere.files nowhere.world .system oneSource none =
      digested nowhere.files nowhere.world .system twoSources none := by
    have htexts : oneSource.contentText .system nowhere.files =
        twoSources.contentText .system nowhere.files :=
      Task.contentText_eq_iff.mpr ⟨rfl, rfl, rfl⟩
    rw [digested, digested, input_eq, input_eq, htexts, run_together]
  have hdigests : Apart (digested nowhere.files nowhere.world .system twoSources none) := by
    refine apart_of_nodup ?_
    rw [digested, List.map_cons, List.map_cons, ← digestText, ← print, hcontent, hprint]
    decide
  rw [hsame]
  exact hdigests.mono (List.append_subset.mpr ⟨fun _ h => h, fun _ h => h⟩)

theorem apart_header :
    Apart (digested nowhere.files nowhere.world .system (headerTask ["a"] 0) none ++
      digested somewhere.files somewhere.world .system (headerTask ["a"] 0) none) := by
  have hcontent : digestText ((headerTask ["a"] 0).contentText .system nowhere.files) = _ :=
    evaluated.contentA
  have hmissing : print nowhere.files nowhere.world .system (headerTask ["a"] 0) none =
      "bb576e45b43c69f08e074348064f316e39c350eeb295aad1a9566db7fcdf8965" := by
    rw [print_header rfl, evaluated.contentA, digest_eq_digestNat]
    decide +kernel
  have hpresent : print somewhere.files somewhere.world .system (headerTask ["a"] 0) none = _ :=
    print_a rfl (by decide +kernel)
  have hthree : Apart [encode ((headerTask ["a"] 0).contentText .system nowhere.files),
      input nowhere.files nowhere.world .system (headerTask ["a"] 0) none,
      input somewhere.files somewhere.world .system (headerTask ["a"] 0) none] := by
    refine apart_of_nodup ?_
    rw [List.map_cons, List.map_cons, List.map_cons, ← digestText, ← print, ← print, hcontent,
      hmissing, hpresent]
    decide
  exact hthree.mono (by simp [digested, somewhere])

/-- Two missing sources count as one, whose path holds the word between theirs; a source that goes
missing counts. -/
theorem fingerprints_separate_run_together :
    (surroundings nowhere twoSources none).sources ≠
      (surroundings nowhere oneSource none).sources ∧
    fingerprint nowhere .system twoSources none = fingerprint nowhere .system oneSource none ∧
    fingerprint nowhere .system (headerTask ["a"] 0) none ≠
      fingerprint somewhere .system (headerTask ["a"] 0) none := by
  obtain ⟨htwo, hone, hheader⟩ := known_nowhere
  refine ⟨by decide +kernel, ?_, ?_⟩
  · obtain ⟨x, y, hx, hy, hiff, -, -⟩ := fingerprints_separate htwo hone apart_nowhere
    rw [hx, hy, hiff.mpr ⟨⟨rfl, rfl, rfl⟩, run_together⟩]
  · have hdistinct : ∀ e ∈ (surroundings nowhere (headerTask ["a"] 0) none).files ++
        (surroundings somewhere (headerTask ["a"] 0) none).files, Distinct e := by
      have hfiles : (surroundings nowhere (headerTask ["a"] 0) none).files ++
          (surroundings somewhere (headerTask ["a"] 0) none).files =
          [("/a.h", none), ("/a.h", some 1)] := by decide +kernel
      rw [hfiles, List.forall_mem_cons, List.forall_mem_singleton]
      refine ⟨⟨legible_header, fun t ht => by cases ht⟩, legible_header, fun t ht => ?_⟩
      cases ht
      exact ⟨by decide, by decide⟩
    have hknown : (headerTask ["a"] 0).Known somewhere.files := hheader
    obtain ⟨x, y, hx, hy, -, -, hiff⟩ := fingerprints_separate hheader hknown apart_header
    rw [hx, hy]
    intro he
    have hsame := ((hiff hdistinct).mp (Except.ok.inj he)).2
    exact absurd hsame (by decide +kernel)

end Build
end PrecompiledHeaders
