import PrecompiledHeaders.Proofs.Json.Fields
import PrecompiledHeaders.Proofs.Json.RoundTrip
import PrecompiledHeaders.Proofs.Json.Strict
import PrecompiledHeaders.Scan
/-! What a dependency scanner may answer. Every report can be written down, in many ways, and each of
them is read as that report; a text in which something is repeated, missing or out of range is none. -/
namespace PrecompiledHeaders

open Json (Form Holds Repeats Lacks Denotes)

/-! ### Values -/

/-- A plain integer of 32 bits. -/
def Json.IsOrder (v : Json) : Prop := ∃ n : Nat, n < UInt32.size ∧ v = .int n

theorem Json.isOrder_of_nat32? {v : Json} {n : Nat} (h : v.nat32? = some n) : v.IsOrder :=
  ⟨n, nat32?_eq_some.mp h⟩

namespace IncludeRole

/-- A role is named by its text, or by an object with this name alone. -/
def NamedBy (v : Json) : Prop :=
  ∃ role : IncludeRole, v = .text role.text ∨ v = .object [(role.text, .null)]

theorem ofJson?_text (role : IncludeRole) : ofJson? (.text role.text) = some role := by
  cases role <;> decide

theorem namedBy_of_ofJson? {v : Json} {role : IncludeRole} (h : ofJson? v = some role) :
    NamedBy v := by
  obtain ⟨s, hs, hrole⟩ := Option.bind_eq_some_iff.mp h
  have htext : role.text = s := by simpa using List.find?_some hrole
  refine ⟨role, ?_⟩
  unfold Json.name? at hs
  split at hs
  · cases hs
    exact Or.inl (by rw [htext])
  · cases hs
    exact Or.inr (by rw [htext])
  · cases hs

end IncludeRole

/-! ### Elements -/

namespace UsedMacro

def fieldNames : List String := ["name", "usage_order"]

theorem nodup_fieldNames : fieldNames.Nodup := by decide

theorem ofJson?_eq_some {j : Json} {m : UsedMacro} : ofJson? j = some m ↔
    ∃ fs, j.fields? fieldNames = some fs ∧ fs.required "name" Json.text? = some m.name ∧
      fs.required "usage_order" Json.nat32? = some m.order := by
  obtain ⟨name, order⟩ := m
  simp [ofJson?, fieldNames, Option.bind_eq_some_iff]

theorem ofJson?_form {m : UsedMacro} {j : Json} (hm : m.order < UInt32.size) (h : Form m.toJson j) :
    ofJson? j = some m := by
  obtain ⟨fs, hfs, hgive⟩ := h.give nodup_fieldNames
  refine ofJson?_eq_some.mpr ⟨fs, hfs, ?_, ?_⟩
  · exact hgive.required "name" (.text m.name) (by simp) nofun _
  · rw [hgive.required "usage_order" (.ofNat m.order) (by simp) nofun, Json.nat32?_ofNat hm]

/-- What is wrong with a value that is no macro. -/
inductive Flawed (j : Json) : Prop
  | lacks (h : Lacks fieldNames j)
  | order {v : Json} (hv : Holds fieldNames "usage_order" v j) (h : ¬ v.IsOrder)

theorem not_flawed {j : Json} {m : UsedMacro} (hj : ofJson? j = some m) : ¬ Flawed j := by
  obtain ⟨fs, hfs, hname, horder⟩ := ofJson?_eq_some.mp hj
  obtain ⟨v, -, hv⟩ := Json.required_eq_some nodup_fieldNames hfs (by decide) hname
  obtain ⟨u, hn, hu⟩ := Json.required_eq_some nodup_fieldNames hfs (by decide) horder
  intro hflawed
  cases hflawed with
  | lacks hlacks =>
    refine Json.not_lacks hfs (fun name hmem => ?_) hlacks
    simp only [fieldNames, List.mem_cons, List.not_mem_nil, or_false] at hmem
    rcases hmem with rfl | rfl
    exacts [⟨v, (hv v).mpr rfl⟩, ⟨u, (hu u).mpr rfl⟩]
  | order hheld hbad => exact hbad ((hu _).mp hheld ▸ Json.isOrder_of_nat32? hn)

end UsedMacro

namespace ScannedInclude

def fieldNames : List String := ["path", "source_type", "usage_order"]

theorem nodup_fieldNames : fieldNames.Nodup := by decide

theorem ofJson?_eq_some {j : Json} {i : ScannedInclude} : ofJson? j = some i ↔
    ∃ fs, j.fields? fieldNames = some fs ∧ fs.required "path" FilePath.ofJson? = some i.path ∧
      fs.required "source_type" IncludeRole.ofJson? = some i.role ∧
      fs.required "usage_order" Json.nat32? = some i.order := by
  obtain ⟨path, role, order⟩ := i
  simp [ofJson?, fieldNames, Option.bind_eq_some_iff]

theorem ofJson?_form {i : ScannedInclude} {j : Json} (hi : i.order < UInt32.size)
    (h : Form i.toJson j) : ofJson? j = some i := by
  obtain ⟨fs, hfs, hgive⟩ := h.give nodup_fieldNames
  refine ofJson?_eq_some.mpr ⟨fs, hfs, ?_, ?_, ?_⟩
  · exact hgive.required "path" (.text i.path.text) (by simp [FilePath.toJson]) nofun _
  · rw [hgive.required "source_type" (.text i.role.text) (by simp) nofun, IncludeRole.ofJson?_text]
  · rw [hgive.required "usage_order" (.ofNat i.order) (by simp) nofun, Json.nat32?_ofNat hi]

/-- What is wrong with a value that is no include. -/
inductive Flawed (j : Json) : Prop
  | lacks (h : Lacks fieldNames j)
  | role {v : Json} (hv : Holds fieldNames "source_type" v j) (h : ¬ IncludeRole.NamedBy v)
  | order {v : Json} (hv : Holds fieldNames "usage_order" v j) (h : ¬ v.IsOrder)

theorem not_flawed {j : Json} {i : ScannedInclude} (hj : ofJson? j = some i) : ¬ Flawed j := by
  obtain ⟨fs, hfs, hpath, hrole, horder⟩ := ofJson?_eq_some.mp hj
  obtain ⟨p, -, hp⟩ := Json.required_eq_some nodup_fieldNames hfs (by decide) hpath
  obtain ⟨v, hr, hv⟩ := Json.required_eq_some nodup_fieldNames hfs (by decide) hrole
  obtain ⟨u, hn, hu⟩ := Json.required_eq_some nodup_fieldNames hfs (by decide) horder
  intro hflawed
  cases hflawed with
  | lacks hlacks =>
    refine Json.not_lacks hfs (fun name hmem => ?_) hlacks
    simp only [fieldNames, List.mem_cons, List.not_mem_nil, or_false] at hmem
    rcases hmem with rfl | rfl | rfl
    exacts [⟨p, (hp p).mpr rfl⟩, ⟨v, (hv v).mpr rfl⟩, ⟨u, (hu u).mpr rfl⟩]
  | role hheld hbad => exact hbad ((hv _).mp hheld ▸ IncludeRole.namedBy_of_ofJson? hr)
  | order hheld hbad => exact hbad ((hu _).mp hheld ▸ Json.isOrder_of_nat32? hn)

end ScannedInclude

/-! ### Reports -/

namespace ScanReport

def fieldNames : List String := ["includes", "used_macros"]

theorem nodup_fieldNames : fieldNames.Nodup := by decide

theorem ofJson?_eq_some {j : Json} {r : ScanReport} : ofJson? j = some r ↔
    ∃ fs, j.fields? fieldNames = some fs ∧
      fs.defaulted "includes" [] (Json.list? ScannedInclude.ofJson?) = some r.includes ∧
      fs.defaulted "used_macros" [] (Json.list? UsedMacro.ofJson?) = some r.usedMacros := by
  obtain ⟨includes, usedMacros⟩ := r
  simp [ofJson?, fieldNames, Option.bind_eq_some_iff]

/-- All orders have 32 bits. -/
structure Fits (r : ScanReport) : Prop where
  includes : ∀ i ∈ r.includes, i.order < UInt32.size
  usedMacros : ∀ m ∈ r.usedMacros, m.order < UInt32.size

/-- The report in one of its forms, with each element in one of its own. -/
def Variant (r : ScanReport) (j : Json) : Prop :=
  ∃ is ms, List.Forall₂ (fun i x => Form i.toJson x) r.includes is ∧
    List.Forall₂ (fun m x => Form m.toJson x) r.usedMacros ms ∧
    Form (.object [("includes", .list is), ("used_macros", .list ms)]) j

theorem variant_toJson (r : ScanReport) : r.Variant r.toJson :=
  ⟨_, _, List.forall₂_map_right_iff.mpr (List.forall₂_same.mpr fun _ _ => .refl _),
    List.forall₂_map_right_iff.mpr (List.forall₂_same.mpr fun _ _ => .refl _), .refl _⟩

theorem Variant.ofJson? {r : ScanReport} {j : Json} (hr : r.Fits) (h : r.Variant j) :
    ofJson? j = some r := by
  obtain ⟨is, ms, hi, hm, hform⟩ := h
  obtain ⟨fs, hfs, hgive⟩ := hform.give nodup_fieldNames
  have hincludes := ((List.forall₂_and_left _ _).mpr ⟨hr.includes, hi⟩).imp
    fun _ _ h => ScannedInclude.ofJson?_form h.1 h.2
  have hmacros := ((List.forall₂_and_left _ _).mpr ⟨hr.usedMacros, hm⟩).imp
    fun _ _ h => UsedMacro.ofJson?_form h.1 h.2
  refine ofJson?_eq_some.mpr ⟨fs, hfs, ?_, ?_⟩
  · rw [hgive.defaulted "includes" (.list is) (by simp), Json.list?_eq_some]
    exact ⟨is, rfl, hincludes⟩
  · rw [hgive.defaulted "used_macros" (.list ms) (by simp), Json.list?_eq_some]
    exact ⟨ms, rfl, hmacros⟩

/-- What is wrong with a value that is no report. -/
inductive Flawed (j : Json) : Prop
  | repeats (h : Repeats fieldNames j)
  | includes {is : List Json} {x : Json} (hi : Holds fieldNames "includes" (.list is) j)
      (hx : x ∈ is) (h : ScannedInclude.Flawed x)
  | usedMacros {ms : List Json} {x : Json} (hm : Holds fieldNames "used_macros" (.list ms) j)
      (hx : x ∈ ms) (h : UsedMacro.Flawed x)

theorem not_flawed {j : Json} {r : ScanReport} (hj : ofJson? j = some r) : ¬ Flawed j := by
  obtain ⟨fs, hfs, hincludes, hmacros⟩ := ofJson?_eq_some.mp hj
  intro hflawed
  cases hflawed with
  | repeats hrep =>
    rw [Json.fields?_eq_none_of_repeats hrep] at hfs
    cases hfs
  | includes hheld hx hbad =>
    have hlist := Json.defaulted_eq_some nodup_fieldNames hfs (by decide) hincludes hheld
    obtain ⟨i, hi⟩ := Json.decode_of_list? hlist hx
    exact ScannedInclude.not_flawed hi hbad
  | usedMacros hheld hx hbad =>
    have hlist := Json.defaulted_eq_some nodup_fieldNames hfs (by decide) hmacros hheld
    obtain ⟨m, hm⟩ := Json.decode_of_list? hlist hx
    exact UsedMacro.not_flawed hm hbad

theorem plain_toJson (r : ScanReport) : r.toJson.Plain := by
  simp [toJson, ScannedInclude.toJson, UsedMacro.toJson, FilePath.toJson, Json.ofNat]

/-- A report is read from its compact form, and from each text that writes one of its variants. A text
is rejected if what it writes has a flaw, and also if it writes nothing. -/
theorem variants_read_flaws_rejected {r : ScanReport} (hr : r.Fits) :
    decode? r.encode = some r ∧
    (∀ s j, r.Variant j → Denotes s j → decode? s = some r) ∧
    ∀ s, (∀ j, Denotes s j → Flawed j) → decode? s = none := by
  have hvariant : ∀ s j, r.Variant j → Denotes s j → decode? s = some r := by
    intro s j hj hs
    rw [decode?, hs.read, Option.bind_some, hj.ofJson? hr]
  refine ⟨hvariant _ _ r.variant_toJson (Json.denotes_compact r.plain_toJson), hvariant, ?_⟩
  intro s hflawed
  by_contra hsome
  obtain ⟨r', hr'⟩ := Option.ne_none_iff_exists'.mp hsome
  obtain ⟨j, hread, hj⟩ := Option.bind_eq_some_iff.mp hr'
  exact not_flawed hj (hflawed j (Json.read_iff.mp hread))

/-- An include, written as an object with its fields out of order and another one between them, in a
report that is a list and leaves the macros out. And an order that is one too large. -/
theorem quoted_path_read :
    decode? (encode ⟨[⟨⟨"\""⟩, .userInclude, 7⟩], []⟩) =
      some ⟨[⟨⟨"\""⟩, .userInclude, 7⟩], []⟩ ∧
    decode? (Json.pretty (.list [.list [.object [("usage_order", .int 7), ("x", .list [.null]),
        ("path", .text "\""), ("source_type", .text "user_include")]]])) =
      some ⟨[⟨⟨"\""⟩, .userInclude, 7⟩], []⟩ ∧
    decode? (Json.compact (.list [.list [], .list [.list [.text "A", .int 4294967296]]])) =
      none := by
  have hfits : Fits ⟨[⟨⟨"\""⟩, .userInclude, 7⟩], []⟩ := ⟨by simp [UInt32.size], nofun⟩
  obtain ⟨hencode, hvariant, hflawed⟩ := variants_read_flaws_rejected hfits
  refine ⟨hencode, ?_, hflawed _ fun j hj => ?_⟩
  · have hinclude : Form (ScannedInclude.toJson ⟨⟨"\""⟩, .userInclude, 7⟩)
        (.object [("usage_order", .int 7), ("x", .list [.null]), ("path", .text "\""),
          ("source_type", .text "user_include")]) := by
      have hunknown : ∀ f ∈ [("x", Json.list [.null])],
          f.1 ∉ ["path", "source_type", "usage_order"] := by decide
      exact .object (.refl _) (fun _ hf => Or.inl hf) hunknown
        (@List.perm_append_comm _ [_, _] [_, _])
    have hmacros : ∀ f ∈ [("used_macros", Json.list [])], f.2 = .list [] := by simp
    exact hvariant _ _ ⟨_, _, .cons hinclude .nil, .nil, @Form.list [_] _ hmacros⟩
      (Json.denotes_pretty (by simp))
  · have hwrites := Json.denotes_compact
      (show (Json.list [.list [], .list [.list [.text "A", .int 4294967296]]]).Plain by simp)
    obtain rfl := hj.unique hwrites
    have hmacros : Holds fieldNames "used_macros" (.list [.list [.text "A", .int 4294967296]])
        (.list [.list [], .list [.list [.text "A", .int 4294967296]]]) := by simp [Holds, fieldNames]
    have horder : Holds UsedMacro.fieldNames "usage_order" (.int 4294967296)
        (.list [.text "A", .int 4294967296]) := by simp [Holds, UsedMacro.fieldNames]
    refine .usedMacros hmacros List.mem_cons_self (.order horder ?_)
    rintro ⟨n, hn, heq⟩
    have hint := Json.int.inj heq
    rw [UInt32.size] at hn
    omega

end ScanReport

end PrecompiledHeaders
