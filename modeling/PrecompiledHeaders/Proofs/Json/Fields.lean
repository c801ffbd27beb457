import PrecompiledHeaders.Json.Decode
import Mathlib.Data.List.Forall2
import Mathlib.Data.List.Nodup
import Mathlib.Data.List.Perm.Basic
/-! What a JSON value says about the fields of a record: which value stands for a field, in an object
and in a list, and when there is none. -/
namespace PrecompiledHeaders.Json

/-! ### Numbers and lists -/

theorem nat32?_eq_some {v : Json} {n : Nat} :
    v.nat32? = some n ↔ n < UInt32.size ∧ v = .int n := by
  cases v with
  | int m =>
    simp only [nat32?, Option.ite_none_right_eq_some, Option.some.injEq, int.injEq]
    constructor <;> (intro h; omega)
  | _ => simp [nat32?]

theorem nat32?_ofNat {n : Nat} (h : n < UInt32.size) : nat32? (.ofNat n) = some n :=
  nat32?_eq_some.mpr ⟨h, rfl⟩

theorem list?_eq_some {decode : Json → Option α} {v : Json} {l : List α} :
    list? decode v = some l ↔
      ∃ items, v = .list items ∧ List.Forall₂ (fun a x => decode x = some a) l items := by
  have hitems : ∀ items : List Json, items.mapM decode = some l ↔
      List.Forall₂ (fun a x => decode x = some a) l items := by
    intro items
    induction items generalizing l with
    | nil => simp [eq_comm]
    | cons x items ih =>
      simp only [List.mapM_cons, bind, pure, Option.bind_eq_some_iff, Option.some.injEq]
      cases l with
      | nil => simp
      | cons a l => simp [ih]
  cases v with
  | list items => simp [list?, hitems]
  | _ => simp [list?]

theorem list?_map {encode : α → Json} {decode : Json → Option α} {l : List α}
    (h : ∀ a ∈ l, decode (encode a) = some a) : list? decode (.list (l.map encode)) = some l :=
  list?_eq_some.mpr ⟨_, rfl, List.forall₂_map_right_iff.mpr (List.forall₂_same.mpr h)⟩

/-- No item of a list that is read is passed over. -/
theorem decode_of_list? {decode : Json → Option α} {items : List Json} {l : List α}
    (h : list? decode (.list items) = some l) {x : Json} (hx : x ∈ items) : ∃ a, decode x = some a := by
  obtain ⟨items', hitems, hall⟩ := list?_eq_some.mp h
  obtain rfl := list.inj hitems
  clear h hitems
  induction hall with
  | nil => cases hx
  | cons ha _ ih =>
    rcases List.mem_cons.mp hx with rfl | hx
    · exact ⟨_, ha⟩
    · exact ih hx

/-! ### Names that stand twice -/

theorem length_eraseDups_le (l : List String) : l.eraseDups.length ≤ l.length := by
  induction hn : l.length using Nat.strongRecOn generalizing l with
  | ind n ih =>
    cases l with
    | nil => simp
    | cons a l =>
      have hfilter := List.length_filter_le (fun b => !b == a) l
      have hrest := ih _ (by rw [← hn, List.length_cons]; omega) (l.filter fun b => !b == a) rfl
      rw [List.eraseDups_cons, List.length_cons]
      simp only [List.length_cons] at hn
      omega

/-- Something is left out just if there is something twice. -/
theorem length_eraseDups {l : List String} : l.eraseDups.length = l.length ↔ l.Nodup := by
  induction l with
  | nil => simp
  | cons a l ih =>
    rw [List.eraseDups_cons, List.nodup_cons, List.length_cons, List.length_cons,
      Nat.add_right_cancel_iff]
    by_cases ha : a ∈ l
    · have hdrop : (l.filter fun b => !b == a).length < l.length :=
        List.length_filter_lt_length_iff_exists.mpr ⟨a, ha, by simp⟩
      have := length_eraseDups_le (l.filter fun b => !b == a)
      simp only [ha, not_true_eq_false, false_and, iff_false]
      omega
    · have hkeep : l.filter (fun b => !b == a) = l :=
        List.filter_eq_self.mpr fun b hb => by
          have hne : b ≠ a := fun hba => ha (hba ▸ hb)
          simpa using hne
      rw [hkeep, ih]
      simp [ha]

/-- A name of a known field stands twice in the object. -/
def Repeats (names : List String) : Json → Prop
  | .object fields => ∃ name ∈ names, 2 ≤ (fields.map Prod.fst).count name
  | _ => False

theorem map_fst_known (names : List String) (fields : List (String × Json)) :
    (fields.filter fun f => names.contains f.1).map Prod.fst =
      (fields.map Prod.fst).filter names.contains := by
  rw [List.filter_map]
  rfl

theorem nodup_known {names : List String} {fields : List (String × Json)} :
    ((fields.filter fun f => names.contains f.1).map Prod.fst).Nodup ↔
      ¬ Repeats names (.object fields) := by
  rw [map_fst_known, List.nodup_iff_count_le_one]
  constructor
  · rintro hcount ⟨name, hname, htwo⟩
    have := hcount name
    rw [List.count_filter (by simpa using hname)] at this
    omega
  · intro hrep name
    by_cases hname : name ∈ names
    · rw [List.count_filter (by simpa using hname)]
      by_contra htwo
      exact hrep ⟨name, hname, by omega⟩
    · rw [List.count_eq_zero_of_not_mem fun hmem => hname (by simpa using (List.mem_filter.mp hmem).2)]
      omega

/-! ### Fields -/

/-- The value stands for that field in a record whose fields have these names. -/
def Holds (names : List String) (name : String) (v : Json) : Json → Prop
  | .object fields => (name, v) ∈ fields
  | .list items => (name, v) ∈ names.zip items
  | _ => False

theorem fields?_eq_none_of_repeats {names : List String} {j : Json} (h : Repeats names j) :
    j.fields? names = none := by
  cases j with
  | object fields =>
    rw [fields?]
    refine if_neg fun hlength => nodup_known.mp (length_eraseDups.mp ?_) h
    rw [← hlength, List.length_map]
  | _ => exact h.elim

theorem lookup_eq_some {l : List (String × Json)} (h : (l.map Prod.fst).Nodup) {name : String}
    {v : Json} : l.lookup name = some v ↔ (name, v) ∈ l := by
  rw [List.lookup_eq_some_iff]
  constructor
  · rintro ⟨before, behind, rfl, -⟩
    simp
  · intro hmem
    obtain ⟨before, behind, rfl⟩ := List.append_of_mem hmem
    refine ⟨before, behind, rfl, fun p hp => ?_⟩
    rw [List.map_append, List.map_cons, List.nodup_append] at h
    have hne := h.2.2 p.1 (List.mem_map_of_mem hp) name List.mem_cons_self
    simpa using hne.symm

theorem fst_zip_sublist (names : List String) (items : List Json) :
    ((names.zip items).map Prod.fst).Sublist names := by
  induction names generalizing items with
  | nil => simp
  | cons name names ih =>
    cases items with
    | nil => simp
    | cons x items => simpa using ih items

/-- The fields of a record are the values that stand for them. -/
theorem lookup_fields? {names : List String} {j : Json} {fs : Fields} (hn : names.Nodup)
    (h : j.fields? names = some fs) {name : String} (hname : name ∈ names) {v : Json} :
    fs.values.lookup name = some v ↔ Holds names name v j := by
  cases j with
  | object fields =>
    simp only [fields?, Option.ite_none_right_eq_some, Option.some.injEq] at h
    obtain ⟨hlength, rfl⟩ := h
    rw [lookup_eq_some (length_eraseDups.mp (by rw [← hlength, List.length_map]))]
    simp [Holds, hname]
  | list items =>
    simp only [fields?, Option.ite_none_right_eq_some, Option.some.injEq] at h
    obtain ⟨-, rfl⟩ := h
    exact lookup_eq_some (hn.sublist (fst_zip_sublist names items))
  | _ => cases h

/-- A required field that is read has one value, and this is decoded. -/
theorem required_eq_some {names : List String} {j : Json} {fs : Fields} (hn : names.Nodup)
    (hfs : j.fields? names = some fs) {name : String} (hname : name ∈ names)
    {decode : Json → Option α} {a : α} (h : fs.required name decode = some a) :
    ∃ v, decode v = some a ∧ ∀ u, Holds names name u j ↔ u = v := by
  obtain ⟨v, hv, ha⟩ := Option.bind_eq_some_iff.mp h
  refine ⟨v, ha, fun u => ?_⟩
  rw [← lookup_fields? hn hfs hname, hv, Option.some.injEq, eq_comm]

theorem defaulted_eq_some {names : List String} {j : Json} {fs : Fields} (hn : names.Nodup)
    (hfs : j.fields? names = some fs) {name : String} (hname : name ∈ names) {default a : α}
    {decode : Json → Option α} (h : fs.defaulted name default decode = some a) {v : Json}
    (hv : Holds names name v j) : decode v = some a := by
  rwa [Fields.defaulted, (lookup_fields? hn hfs hname).mpr hv] at h

/-- One of the fields stands twice, or not at all. -/
def Lacks (names : List String) (j : Json) : Prop :=
  Repeats names j ∨ ∃ name ∈ names, ∀ v, ¬ Holds names name v j

theorem not_lacks {names : List String} {j : Json} {fs : Fields} (hfs : j.fields? names = some fs)
    (h : ∀ name ∈ names, ∃ v, Holds names name v j) : ¬ Lacks names j := by
  rintro (hrep | ⟨name, hname, hnone⟩)
  · rw [fields?_eq_none_of_repeats hrep] at hfs
    cases hfs
  · obtain ⟨v, hv⟩ := h name hname
    exact hnone v hv

/-! ### Forms of a record -/

/-- The ways to write a record whose fields these are. An object has them in any order and others
between them; a list has only the values, in order. Either may leave empty lists out. -/
inductive Form : Json → Json → Prop
  | object {fields kept unknown all : List (String × Json)} (hk : kept.Sublist fields)
      (hl : ∀ f ∈ fields, f ∈ kept ∨ f.2 = .list [])
      (hu : ∀ f ∈ unknown, f.1 ∉ fields.map Prod.fst) (ha : all.Perm (kept ++ unknown)) :
      Form (.object fields) (.object all)
  | list {shown rest : List (String × Json)} (hl : ∀ f ∈ rest, f.2 = .list []) :
      Form (.object (shown ++ rest)) (.list (shown.map Prod.snd))

theorem Form.refl (fields : List (String × Json)) : Form (.object fields) (.object fields) := by
  have hnone : ∀ f ∈ ([] : List (String × Json)), f.1 ∉ fields.map Prod.fst := nofun
  exact .object (.refl fields) (fun _ hf => Or.inl hf) hnone (by simp)

variable {fields : List (String × Json)} {j : Json}

theorem Form.exists_fields? (h : Form (.object fields) j) (hn : (fields.map Prod.fst).Nodup) :
    ∃ fs, j.fields? (fields.map Prod.fst) = some fs := by
  cases h with
  | @object _ kept unknown all hk hl hu ha =>
    have hrep : ¬ Repeats (fields.map Prod.fst) (.object all) := by
      rintro ⟨name, hname, htwo⟩
      rw [(ha.map Prod.fst).count_eq, List.map_append, List.count_append,
        List.count_eq_zero_of_not_mem (l := unknown.map Prod.fst) fun hmem => ?_] at htwo
      · have hone := List.nodup_iff_count_le_one.mp hn name
        have := (hk.map Prod.fst).count_le name
        omega
      · obtain ⟨f, hf, rfl⟩ := List.mem_map.mp hmem
        exact hu f hf hname
    have hlength := length_eraseDups.mpr (nodup_known.mpr hrep)
    rw [List.length_map] at hlength
    exact ⟨_, by rw [fields?]; exact if_pos hlength.symm⟩
  | list hl =>
    exact ⟨_, by rw [fields?]; exact if_pos (by simp)⟩

theorem zip_shown (shown rest : List (String × Json)) :
    ((shown ++ rest).map Prod.fst).zip (shown.map Prod.snd) = shown := by
  induction shown with
  | nil => simp
  | cons f shown ih => simpa using ih

/-- Each field has its value, unless this is an empty list and left out. -/
theorem Form.holds (h : Form (.object fields) j) {name : String} {v : Json}
    (hf : (name, v) ∈ fields) : Holds (fields.map Prod.fst) name v j ∨ v = .list [] := by
  cases h with
  | object hk hl hu ha => exact (hl _ hf).imp_left fun hkept => ha.mem_iff.mpr (by simp [hkept])
  | list hl =>
    refine (List.mem_append.mp hf).imp (fun hshown => ?_) (hl _)
    rw [Holds, zip_shown]
    exact hshown

theorem Form.eq_of_holds (h : Form (.object fields) j) (hn : (fields.map Prod.fst).Nodup)
    {name : String} {v u : Json} (hf : (name, v) ∈ fields)
    (hu : Holds (fields.map Prod.fst) name u j) : u = v := by
  have hmem : (name, u) ∈ fields := by
    cases h with
    | object hk hl hunknown ha =>
      rcases List.mem_append.mp (ha.mem_iff.mp hu) with hkept | hmore
      · exact hk.subset hkept
      · exact absurd (List.mem_map_of_mem hf) (hunknown (name, u) hmore)
    | list hl =>
      rw [Holds, zip_shown] at hu
      exact List.mem_append_left _ hu
  exact congrArg Prod.snd (List.inj_on_of_nodup_map hn hmem hf rfl)

/-- What was found are these fields, where empty lists may be left out. -/
def Fields.Give (fs : Fields) (fields : List (String × Json)) : Prop :=
  ∀ name v, (name, v) ∈ fields →
    fs.values.lookup name = some v ∨ fs.values.lookup name = none ∧ v = .list []

/-- In each form of a record its fields are found. -/
theorem Form.give (h : Form (.object fields) j) (hn : (fields.map Prod.fst).Nodup) :
    ∃ fs, j.fields? (fields.map Prod.fst) = some fs ∧ fs.Give fields := by
  obtain ⟨fs, hfs⟩ := h.exists_fields? hn
  refine ⟨fs, hfs, fun name v hf => ?_⟩
  have hlookup : ∀ u, fs.values.lookup name = some u ↔ Holds (fields.map Prod.fst) name u j :=
    fun u => lookup_fields? hn hfs (List.mem_map_of_mem hf)
  rcases h.holds hf with hheld | hempty
  · exact Or.inl ((hlookup v).mpr hheld)
  · cases hu : fs.values.lookup name with
    | none => exact Or.inr ⟨rfl, hempty⟩
    | some u => exact Or.inl (congrArg some (h.eq_of_holds hn hf ((hlookup u).mp hu)))

namespace Fields.Give

variable {fs : Fields}

theorem required (h : fs.Give fields) (name : String) (v : Json) (hf : (name, v) ∈ fields)
    (hv : v ≠ .list []) (decode : Json → Option α) : fs.required name decode = decode v := by
  rcases h name v hf with hfound | ⟨-, hempty⟩
  · rw [Fields.required, hfound, Option.bind_some]
  · exact absurd hempty hv

/-- A list that was left out is read as the empty one that it stood for. -/
theorem defaulted (h : fs.Give fields) (name : String) (v : Json) (hf : (name, v) ∈ fields)
    (decode : Json → Option α) : fs.defaulted name [] (list? decode) = list? decode v := by
  rcases h name v hf with hfound | ⟨hleft, rfl⟩
  · rw [Fields.defaulted, hfound]
  · rw [Fields.defaulted, hleft]
    rfl

end Fields.Give

end PrecompiledHeaders.Json
