import PrecompiledHeaders.Build
import PrecompiledHeaders.Record
/-! Where the pipeline keeps its files. Every such file has a plain name behind the last separator,
and files with different names are in different places, whatever their directories are. -/
namespace PrecompiledHeaders

/-! ### Digests -/

def IsHex (c : Char) : Prop := ∃ n < 16, c = Text.hexDigit n

theorem IsHex.ne {c : Char} (h : IsHex c) : c ≠ '/' ∧ c ≠ '-' ∧ c.toNat < 128 := by
  obtain ⟨n, hn, rfl⟩ := h
  revert n
  decide

theorem isHex_hexByte {b : UInt8} {c : Char} (h : c ∈ Text.hexByte b) : IsHex c := by
  have hb := b.toNat_lt
  simp only [Text.hexByte, List.mem_cons, List.not_mem_nil, or_false] at h
  rcases h with rfl | rfl
  · exact ⟨b.toNat / 16, by omega, rfl⟩
  · exact ⟨b.toNat % 16, by omega, rfl⟩

theorem isHex_digest {bytes : List UInt8} {c : Char} (h : c ∈ (digest bytes).toList) :
    IsHex c := by
  rw [digest, String.toList_ofList] at h
  obtain ⟨b, _, hb⟩ := List.mem_flatMap.mp h
  exact isHex_hexByte hb

theorem length_flatMap_eq {f : α → List β} {n : Nat} (hf : ∀ a, (f a).length = n) (xs : List α) :
    (xs.flatMap f).length = n * xs.length := by
  induction xs with
  | nil => rfl
  | cons x xs ih =>
    rw [List.flatMap_cons, List.length_append, hf, ih, List.length_cons, Nat.mul_succ, Nat.add_comm]

theorem length_digest (bytes : List UInt8) : (digest bytes).toList.length = 64 := by
  rw [digest, String.toList_ofList, length_flatMap_eq (n := 2) (fun _ => rfl),
    length_flatMap_eq (n := 4) (fun _ => rfl), Vector.length_toList]

/-! ### Last names -/

namespace FilePath

/-- The path ends in this name. -/
def Ends (p : FilePath) (s : String) : Prop := p.components.getLast? = some (.name s)

theorem not_same_of_ends {p q : FilePath} {s t : String} (hp : p.Ends s) (hq : q.Ends t)
    (h : s ≠ t) : ¬ p.same q := by
  intro hs
  have hc : p.components = q.components := by simpa [same] using hs
  rw [Ends, hc, hq] at hp
  exact h (Component.name.inj (Option.some.inj hp)).symm

theorem same_symm {p q : FilePath} (h : p.same q) : q.same p := by
  simp only [same, decide_eq_true_eq] at *
  exact h.symm

/-- A name that can stand behind a separator. -/
structure Plain (s : String) : Prop where
  whole : '/' ∉ s.toList
  filled : s ≠ ""
  not_here : s ≠ "."
  not_up : s ≠ ".."

theorem ends_of_pieces {p : FilePath} {s : String} {rest : List String}
    (hp : p.pieces = rest ++ [s]) (h : Plain s) : p.Ends s := by
  have hkept : (p.pieces.filter fun s => s ≠ "" ∧ s ≠ ".").map Component.ofText =
      (rest.filter fun s => s ≠ "" ∧ s ≠ ".").map Component.ofText ++ [.name s] := by
    rw [hp, List.filter_append, List.map_append]
    simp [h.filled, h.not_here, Component.ofText, h.not_up]
  rw [Ends, components, hkept]
  split
  · rw [← List.cons_append, List.getLast?_concat]
  · split
    · rw [← List.cons_append, List.getLast?_concat]
    · rw [List.getLast?_concat]

theorem splitOn_plain {s : String} (h : Plain s) :
    s.toList.splitOn '/' = [s.toList] := by
  have hsplit : List.splitOn '/' (['/'].intercalate [s.toList]) = [s.toList] :=
    List.splitOn_intercalate '/' (by simpa using h.whole) (by simp)
  simpa using hsplit

theorem pieces_behind {p : FilePath} {s : String} {front : List Char} (h : Plain s)
    (hp : p.text.toList = front ++ '/' :: s.toList) :
    p.pieces = (front.splitOn '/').map String.ofList ++ [s] := by
  rw [pieces, hp, List.splitOn, List.splitOnP_append_cons _ _ (by simp), List.map_append,
    ← List.splitOn, ← List.splitOn, splitOn_plain h]
  simp

theorem ends_div (dir : FilePath) {s : String} (h : Plain s) : (dir / s).Ends s := by
  have hrel : (⟨s⟩ : FilePath).isAbsolute = false := by
    rw [isAbsolute, decide_eq_false_iff_not]
    exact fun hc => h.whole (List.mem_of_mem_head? hc)
  show (dir.join ⟨s⟩).Ends s
  rw [join]
  split
  · have hpieces : (⟨s⟩ : FilePath).pieces = [] ++ [s] := by
      rw [pieces, splitOn_plain h]
      simp
    exact ends_of_pieces hpieces h
  · split
    · rename_i hlast
      obtain ⟨front, hfront⟩ := List.getLast?_eq_some_iff.mp hlast
      have htext : (dir.text ++ s).toList = front ++ '/' :: s.toList := by simp [hfront]
      exact ends_of_pieces (pieces_behind h htext) h
    · have htext : (dir.text ++ "/" ++ s).toList = dir.text.toList ++ '/' :: s.toList := by simp
      exact ends_of_pieces (pieces_behind h htext) h

end FilePath

/-! ### Names in use -/

open FilePath (Plain)

theorem plain_of_head {s : String} {c : Char} (hc : s.toList.head? = some c) (hdot : c ≠ '.')
    (h : '/' ∉ s.toList) : Plain s := by
  refine ⟨h, ?_, ?_, ?_⟩ <;> rintro rfl
  · cases hc
  · exact hdot (Option.some.inj hc).symm
  · exact hdot (Option.some.inj hc).symm

theorem slash_not_mem_digest (bytes : List UInt8) : '/' ∉ (digest bytes).toList :=
  fun h => (isHex_digest h).ne.1 rfl

theorem slash_not_mem_take {s : String} (n : Nat) (h : '/' ∉ s.toList) :
    '/' ∉ s.toList.take n := fun hs => h (List.mem_of_mem_take hs)

namespace Build

def headerName (scope : Scope) (key : TaskKey) : String := s!"{scope.text}-{key.short}.h"

def outputName (scope : Scope) (key : TaskKey) (print : String) : String :=
  s!"{scope.text}-{key.short}-{String.ofList (print.toList.take 16)}.pch"

theorem toList_headerName (scope : Scope) (key : TaskKey) : (headerName scope key).toList =
    scope.text.toList ++ '-' :: (key.hex.toList.take 16 ++ ['.', 'h']) := by
  simp [headerName, TaskKey.short, String.toList_append, toString]

theorem toList_outputName (scope : Scope) (key : TaskKey) (print : String) :
    (outputName scope key print).toList = scope.text.toList ++ '-' ::
      (key.hex.toList.take 16 ++ '-' :: (print.toList.take 16 ++ ['.', 'p', 'c', 'h'])) := by
  simp [outputName, TaskKey.short, String.toList_append, toString]

theorem plain_headerName (scope : Scope) {key : TaskKey} (hk : '/' ∉ key.hex.toList) :
    Plain (headerName scope key) := by
  have hs := slash_not_mem_take 16 hk
  cases scope <;> refine plain_of_head (by rw [toList_headerName]; rfl) (by decide) ?_ <;>
    simp [toList_headerName, hs, Scope.text]

theorem plain_outputName (scope : Scope) {key : TaskKey} {print : String}
    (hk : '/' ∉ key.hex.toList) (hp : '/' ∉ print.toList) :
    Plain (outputName scope key print) := by
  have hs := slash_not_mem_take 16 hk
  have ht := slash_not_mem_take 16 hp
  cases scope <;> refine plain_of_head (by rw [toList_outputName]; rfl) (by decide) ?_ <;>
    simp [toList_outputName, hs, ht, Scope.text]

variable {dir : FilePath} {scope : Scope} {key : TaskKey} {print : String} {task : Task}
  {includes : List String} {base : Option FilePath}

theorem ends_headerPath (hk : '/' ∉ key.hex.toList) :
    (jobFor dir key scope task includes print base).headerPath.Ends (headerName scope key) :=
  FilePath.ends_div dir (plain_headerName scope hk)

theorem ends_outputPath (hk : '/' ∉ key.hex.toList) (hp : '/' ∉ print.toList) :
    (jobFor dir key scope task includes print base).outputPath.Ends
      (outputName scope key print) :=
  FilePath.ends_div dir (plain_outputName scope hk hp)

end Build

theorem ends_documentPath (root : FilePath) :
    (ArtifactStore.documentPath root).Ends "artifacts.json" :=
  FilePath.ends_div root ⟨by decide, by decide, by decide, by decide⟩

theorem plain_recordName {key : String} (h : '/' ∉ key.toList) : Plain (key ++ ".json") := by
  have hlen : 5 ≤ (key ++ ".json").toList.length := by simp [String.toList_append]
  refine ⟨by simp [String.toList_append, h], ?_, ?_, ?_⟩ <;> intro he <;> rw [he] at hlen <;>
    revert hlen <;> decide

theorem ends_pathFor (root : FilePath) {key : String} (h : '/' ∉ key.toList) :
    (RecordStore.pathFor root key).Ends (key ++ ".json") :=
  FilePath.ends_div _ (plain_recordName h)

/-! ### Different kinds of files -/

theorem headerName_ne_outputName {s s' : Scope} {k k' : TaskKey} {print : String} :
    Build.headerName s k ≠ Build.outputName s' k' print := by
  intro h
  have hl := congrArg (fun t : String => t.toList.reverse.take 2) h
  simp [Build.toList_headerName, Build.toList_outputName] at hl

theorem outputName_ne_of_scope {s s' : Scope} {k k' : TaskKey} {print print' : String}
    (h : s ≠ s') : Build.outputName s k print ≠ Build.outputName s' k' print' := by
  intro he
  have hl := congrArg (fun t : String => t.toList.head?) he
  rw [Build.toList_outputName, Build.toList_outputName] at hl
  cases s <;> cases s' <;> first | exact h rfl | (revert hl; simp [Scope.text])

theorem headerName_ne_json {s : Scope} {k : TaskKey} {t : String} :
    Build.headerName s k ≠ t ++ ".json" := by
  intro h
  have hl := congrArg (fun t : String => t.toList.reverse.take 1) h
  simp [Build.toList_headerName, String.toList_append] at hl

theorem outputName_ne_json {s : Scope} {k : TaskKey} {print t : String} :
    Build.outputName s k print ≠ t ++ ".json" := by
  intro h
  have hl := congrArg (fun t : String => t.toList.reverse.take 1) h
  simp [Build.toList_outputName, String.toList_append] at hl

theorem digest_json_ne_artifacts (bytes : List UInt8) : digest bytes ++ ".json" ≠ "artifacts.json" := by
  intro h
  have hl := congrArg (fun t : String => t.toList.length) h
  simp only [String.toList_append, List.length_append, length_digest] at hl
  revert hl
  decide

end PrecompiledHeaders
