import PrecompiledHeaders.Proofs.Headers
import PrecompiledHeaders.Proofs.Json.RoundTrip
import PrecompiledHeaders.Proofs.Workshop
/-! What an artifact store holds: the artifact for a fingerprint, and the header of a part in a
scope. A store in memory and a store in a document hold the same after the same operations, because
the document is read back as what was written. -/
namespace PrecompiledHeaders

/-! ### Maps in documents -/

namespace TextMap

theorem foldl_insert (l : List (String × α)) (m : TextMap α) :
    l.foldl (fun m f => m.insert f.1 f.2) m = m.insertMany l := by
  induction l generalizing m with
  | nil => rfl
  | cons f l ih => rw [List.foldl_cons, ih, ← Std.TreeMap.insertMany_cons]

/-- A map put together again from its entries has the same entries. -/
theorem getElem?_foldl_toList (m : TextMap α) (k : String) :
    (m.toList.foldl (fun m f => m.insert f.1 f.2) ({} : TextMap α))[k]? = m[k]? := by
  rw [foldl_insert]
  cases hk : m[k]? with
  | none =>
    have habs : (m.toList.map Prod.fst).contains k = false := by
      rw [List.contains_eq_mem, decide_eq_false_iff_not]
      intro hmem
      obtain ⟨⟨k', v⟩, hv, rfl⟩ := List.mem_map.mp hmem
      rw [Std.TreeMap.mem_toList_iff_getElem?_eq_some] at hv
      rw [hv] at hk
      cases hk
    rw [Std.TreeMap.getElem?_insertMany_list_of_contains_eq_false habs]
    rfl
  | some v =>
    exact Std.TreeMap.getElem?_insertMany_list_of_mem Std.ReflCmp.compare_self
      Std.TreeMap.distinct_keys_toList (Std.TreeMap.mem_toList_iff_getElem?_eq_some.mpr hk)

theorem getElem?_foldl_erase (ids : List String) (m : TextMap α) (id : String) :
    (ids.foldl (fun m i => m.erase i) m)[id]? = if id ∈ ids then none else m[id]? := by
  induction ids generalizing m with
  | nil => rfl
  | cons i ids ih =>
    rw [List.foldl_cons, ih, Std.TreeMap.getElem?_erase]
    by_cases hid : id = i
    · subst hid
      simp
    · have hne : compare i id ≠ .eq := fun he => hid (Std.LawfulEqCmp.eq_of_compare he).symm
      simp [hid, hne]

end TextMap

namespace ArtifactIndex

theorem map?_object {encode : α → Json} {decode : Json → Option α}
    (h : ∀ a, decode (encode a) = some a) (l : List (String × α)) :
    map? decode (.object (l.map fun e => (e.1, encode e.2))) =
      some (l.foldl (fun m f => m.insert f.1 f.2) {}) := by
  have hfold : ∀ m : TextMap α, (l.map fun e => (e.1, encode e.2)).foldlM
      (fun m f => (decode f.2).map (m.insert f.1 ·)) m =
        some (l.foldl (fun m f => m.insert f.1 f.2) m) := by
    induction l with
    | nil => exact fun m => rfl
    | cons e l ih =>
      intro m
      rw [List.map_cons, List.foldlM_cons, h, Option.map_some, List.foldl_cons]
      exact ih _
  exact hfold {}

end ArtifactIndex

theorem FilePath.ofJson?_toJson (p : FilePath) : FilePath.ofJson? p.toJson = some p := rfl

theorem PartHeaders.ofJson?_toJson (h : PartHeaders) : PartHeaders.ofJson? h.toJson = some h := by
  obtain ⟨s, p⟩ := h
  cases s <;> cases p <;> rfl

theorem PartHeaders.plain_toJson (h : PartHeaders) : h.toJson.Plain := by
  obtain ⟨s, p⟩ := h
  cases s <;> cases p <;> simp [toJson, Json.ofOption, FilePath.toJson, Json.Plain]

namespace ArtifactIndex

theorem plain_toJson (x : ArtifactIndex) : x.toJson.Plain := by
  rw [toJson, Json.plain_object]
  intro f hf
  simp only [List.mem_cons, List.not_mem_nil, or_false] at hf
  rcases hf with rfl | rfl
  · rw [Json.plain_object]
    intro f hf
    obtain ⟨e, _, rfl⟩ := List.mem_map.mp hf
    exact Json.plain_text _
  · rw [Json.plain_object]
    intro f hf
    obtain ⟨e, _, rfl⟩ := List.mem_map.mp hf
    exact e.2.plain_toJson

/-- A written index is read as one with the same entries. -/
theorem ofJson?_toJson (x : ArtifactIndex) : ∃ y, ofJson? x.toJson = some y ∧
    (∀ k : String, y.artifacts[k]? = x.artifacts[k]?) ∧
      ∀ p : PartId, y.headers[p]? = x.headers[p]? := by
  refine ⟨⟨x.artifacts.toList.foldl (fun m f => m.insert f.1 f.2) {},
    x.headers.toList.foldl (fun m f => m.insert f.1 f.2) {}⟩, ?_,
    TextMap.getElem?_foldl_toList _, TextMap.getElem?_foldl_toList _⟩
  have ha := map?_object FilePath.ofJson?_toJson x.artifacts.toList
  have hh := map?_object PartHeaders.ofJson?_toJson x.headers.toList
  have hnames : ["artifacts", "headers"].eraseDups = ["artifacts", "headers"] := by decide
  simp [ofJson?, toJson, Json.fields?, Json.Fields.defaulted, hnames, List.lookup_cons, ha, hh]

end ArtifactIndex

/-! ### Documents -/

namespace Document

variable {W : Type} [Workshop W] [LawfulWorkshop W]

theorem save_result (w : W) (path : FilePath) (document : Json) :
    Document.save w path document = (.ok (), (World.writeText w path document.pretty).2) := by
  have h := LawfulWorkshop.write_result w path document.pretty
  rw [save]
  cases hw : World.writeText w path document.pretty with
  | mk result v =>
    rw [hw] at h
    rw [show result = .ok () from h]

/-- What was saved is loaded, also from a world in which other files changed since. -/
theorem load_saved {w v : W} {path : FilePath} {document : Json} {decode : Json → Option α} {a : α}
    (hp : document.Plain) (hd : decode document = some a)
    (hv : look v path = look (World.writeText w path document.pretty).2 path) :
    Document.load v path decode = .ok (some a) := by
  have hhas : World.hasFile v path = true :=
    (congrArg (·.1) hv).trans (LawfulWorkshop.write_hasFile w path document.pretty)
  have htext : World.readText v path = .ok document.pretty :=
    (congrArg (·.2.1) hv).trans (LawfulWorkshop.write_readText w path document.pretty)
  simp [load, hhas, htext, Json.read_pretty hp, hd]

omit [LawfulWorkshop W] in
theorem load_congr {v w : W} {path : FilePath} (decode : Json → Option α)
    (h : look v path = look w path) : Document.load v path decode = Document.load w path decode := by
  have hhas : World.hasFile v path = World.hasFile w path := congrArg (·.1) h
  have htext : World.readText v path = World.readText w path := congrArg (·.2.1) h
  rw [load, load, hhas, htext]

end Document

/-! ### Holdings -/

@[ext] structure Holdings where
  artifact : String → Option FilePath
  header : PartId → Scope → Option FilePath

namespace Holdings

def empty : Holdings := ⟨fun _ => none, fun _ _ => none⟩

def setArtifact (h : Holdings) (print : String) (path : FilePath) : Holdings :=
  { h with artifact := Function.update h.artifact print (some path) }

/-- The parts have this header in the scope, or none. -/
def assign (h : Holdings) (parts : List PartId) (scope : Scope) (o : Option FilePath) : Holdings :=
  { h with header := fun p s => if p ∈ parts ∧ s = scope then o else h.header p s }

@[simp] theorem artifact_assign (h : Holdings) (parts : List PartId) (scope : Scope)
    (o : Option FilePath) : (h.assign parts scope o).artifact = h.artifact := rfl

theorem header_assign_of_mem (h : Holdings) {parts : List PartId} {p : PartId} (hp : p ∈ parts)
    (scope : Scope) (o : Option FilePath) : (h.assign parts scope o).header p scope = o :=
  if_pos ⟨hp, rfl⟩

theorem header_assign_of_not (h : Holdings) {parts : List PartId} {p : PartId} {s scope : Scope}
    (hp : p ∈ parts → s ≠ scope) (o : Option FilePath) :
    (h.assign parts scope o).header p s = h.header p s :=
  if_neg fun hc => hp hc.1 hc.2

end Holdings

namespace ArtifactIndex

def holdings (x : ArtifactIndex) : Holdings := ⟨(x.artifacts[·]?), x.header?⟩

theorem holdings_eq {x y : ArtifactIndex} (ha : ∀ k : String, y.artifacts[k]? = x.artifacts[k]?)
    (hh : ∀ p : PartId, y.headers[p]? = x.headers[p]?) : y.holdings = x.holdings := by
  ext1
  · exact funext ha
  · funext p s
    show y.header? p s = x.header? p s
    rw [header?, header?, hh]

theorem holdings_insertArtifact (x : ArtifactIndex) (print : String) (path : FilePath) :
    (x.insertArtifact print path).holdings = x.holdings.setArtifact print path := by
  ext1
  · funext k
    show (x.artifacts.insert print path)[k]? = Function.update (x.artifacts[·]?) print (some path) k
    rw [Std.TreeMap.getElem?_insert]
    by_cases hk : print = k
    · subst hk
      rw [if_pos Std.ReflCmp.compare_self, Function.update_self]
    · rw [if_neg fun he => hk (Std.LawfulEqCmp.eq_of_compare he),
        Function.update_of_ne (Ne.symm hk)]
  · rfl

theorem header?_setHeader_self (x : ArtifactIndex) (scope : Scope) (path : FilePath)
    (part : PartId) : (x.setHeader scope path part).header? part scope = some path := by
  rw [header?, setHeader, Std.TreeMap.getElem?_insert, if_pos Std.ReflCmp.compare_self,
    Option.bind_some, PerScope.get_set_self]

theorem header?_deleteHeader_self (x : ArtifactIndex) (scope : Scope) (part : PartId) :
    (x.deleteHeader scope part).header? part scope = none := by
  rw [deleteHeader]
  cases hc : x.headers[part]? with
  | none => rw [header?, hc, Option.bind_none]
  | some current =>
    dsimp only
    rw [header?]
    split
    · rw [Std.TreeMap.getElem?_erase, if_pos Std.ReflCmp.compare_self, Option.bind_none]
    · rw [Std.TreeMap.getElem?_insert, if_pos Std.ReflCmp.compare_self, Option.bind_some]
      exact PerScope.get_set_self _ _ _

section

variable {f : ArtifactIndex → PartId → ArtifactIndex} {scope : Scope} {o : Option FilePath}

theorem header?_foldl_of_mem (hself : ∀ x part, (f x part).header? part scope = o)
    (hother : ∀ x part p s, (part = p → scope ≠ s) → (f x part).header? p s = x.header? p s)
    {parts : List PartId} {p : PartId} (hp : p ∈ parts) (x : ArtifactIndex) :
    (parts.foldl f x).header? p scope = o := by
  induction parts generalizing x with
  | nil => exact absurd hp List.not_mem_nil
  | cons part parts ih =>
    rw [List.foldl_cons]
    by_cases hlater : p ∈ parts
    · exact ih hlater _
    · obtain rfl : p = part := (List.mem_cons.mp hp).resolve_right hlater
      rw [header?_foldl (fun x part h => hother x part p scope h) _ fun h => absurd h hlater]
      exact hself x p

/-- A change made part by part, which gives `o` to each part named and spares all others. -/
theorem holdings_foldl (ha : ∀ x part, (f x part).artifacts = x.artifacts)
    (hself : ∀ x part, (f x part).header? part scope = o)
    (hother : ∀ x part p s, (part = p → scope ≠ s) → (f x part).header? p s = x.header? p s)
    (parts : List PartId) (x : ArtifactIndex) :
    (parts.foldl f x).holdings = x.holdings.assign parts scope o := by
  have hart : (parts.foldl f x).artifacts = x.artifacts := by
    induction parts generalizing x with
    | nil => rfl
    | cons part parts ih => rw [List.foldl_cons, ih, ha]
  ext1
  · show (fun k => (parts.foldl f x).artifacts[k]?) = fun k => x.artifacts[k]?
    rw [hart]
  · funext p s
    by_cases h : p ∈ parts ∧ s = scope
    · obtain ⟨hp, rfl⟩ := h
      rw [Holdings.header_assign_of_mem _ hp]
      exact header?_foldl_of_mem hself hother hp x
    · have hp : p ∈ parts → scope ≠ s := fun hp hs => h ⟨hp, hs.symm⟩
      rw [Holdings.header_assign_of_not _ fun hp' => Ne.symm (hp hp')]
      exact header?_foldl (fun x part h => hother x part p s h) _ hp

end

theorem holdings_setHeaders (x : ArtifactIndex) (parts : List PartId) (scope : Scope)
    (path : FilePath) :
    (x.setHeaders parts scope path).holdings = x.holdings.assign parts scope (some path) :=
  holdings_foldl (f := fun x part => x.setHeader scope path part) (fun _ _ => rfl)
    (fun x part => x.header?_setHeader_self scope path part)
    (fun x _ _ _ h => x.header?_setHeader h) parts x

theorem artifacts_deleteHeader (x : ArtifactIndex) (scope : Scope) (part : PartId) :
    (x.deleteHeader scope part).artifacts = x.artifacts := by
  rw [deleteHeader]
  split
  · rfl
  · dsimp only
    split <;> rfl

theorem holdings_deleteHeaders (x : ArtifactIndex) (parts : List PartId) (scope : Scope) :
    (x.deleteHeaders parts scope).holdings = x.holdings.assign parts scope none :=
  holdings_foldl (f := fun x part => x.deleteHeader scope part)
    (fun x part => x.artifacts_deleteHeader scope part)
    (fun x part => x.header?_deleteHeader_self scope part)
    (fun x _ _ _ h => x.header?_deleteHeader h) parts x

/-- If no part named has a header, there is nothing to take away. -/
theorem assign_none_of_hasHeader {x : ArtifactIndex} {parts : List PartId} {scope : Scope}
    (h : x.hasHeader parts scope = false) :
    x.holdings.assign parts scope none = x.holdings := by
  ext1
  · rfl
  · funext p s
    by_cases hc : p ∈ parts ∧ s = scope
    · obtain ⟨hp, rfl⟩ := hc
      rw [Holdings.header_assign_of_mem _ hp]
      exact (Option.not_isSome_iff_eq_none.mp (List.any_eq_false.mp h p hp)).symm
    · exact Holdings.header_assign_of_not _ (fun hp hs => hc ⟨hp, hs⟩) _

end ArtifactIndex

/-- The header that a build with this outcome gives to the parts. -/
def Outcome.header? : Outcome → Option FilePath
  | .built path _ => some path
  | .empty | .failed _ => none

/-! ### Stores -/

namespace ArtifactStore

/-- The files a store writes. -/
def documents : ArtifactStore → List FilePath
  | .memory _ => []
  | .file root => [documentPath root]

variable {W : Type} [Workshop W]

/-- The store can be read, and holds this. -/
def Shows (store : ArtifactStore) (w : W) (h : Holdings) : Prop :=
  ∃ x, store.index w = .ok x ∧ x.holdings = h

/-- An operation on the store went through, and the store holds `h` now. -/
structure Put (store : ArtifactStore) (w : W) (out : Except Fault Unit × ArtifactStore × W)
    (h : Holdings) : Prop where
  result : out.1 = .ok ()
  documents : out.2.1.documents = store.documents
  shows : out.2.1.Shows out.2.2 h
  spares : Spares store.documents w out.2.2
  quiet : Quiet w out.2.2

variable {store : ArtifactStore} {w v : W} {h : Holdings}

theorem Shows.artifact? (hs : store.Shows w h) (print : String) :
    store.artifact? w print = .ok (h.artifact print) := by
  obtain ⟨x, hx, rfl⟩ := hs
  rw [ArtifactStore.artifact?, hx]
  rfl

theorem Shows.header? (hs : store.Shows w h) (part : PartId) (scope : Scope) :
    store.header? w part scope = .ok (h.header part scope) := by
  obtain ⟨x, hx, rfl⟩ := hs
  rw [ArtifactStore.header?, hx]
  rfl

theorem Shows.unique {h' : Holdings} (hs : store.Shows w h) (hs' : store.Shows w h') : h = h' := by
  obtain ⟨x, hx, rfl⟩ := hs
  obtain ⟨y, hy, rfl⟩ := hs'
  rw [Except.ok.inj (hx.symm.trans hy)]

/-- Other files do not matter. -/
theorem Shows.of_look (hs : store.Shows w h) (hv : ∀ p ∈ store.documents, look v p = look w p) :
    store.Shows v h := by
  obtain ⟨x, hx, rfl⟩ := hs
  refine ⟨x, ?_, rfl⟩
  rw [← hx]
  cases store with
  | memory y => rfl
  | file root => rw [index, index, Document.load_congr _ (hv _ List.mem_cons_self)]

theorem Shows.spared {ps : List FilePath} (hs : store.Shows w h) (hv : Spares ps w v)
    (hps : ∀ p ∈ ps, ∀ d ∈ store.documents, ¬ p.same d) : store.Shows v h :=
  hs.of_look fun d hd => hv.look d fun p hp => hps p hp d hd

theorem shows_memory_empty (w : W) : (ArtifactStore.memory .empty).Shows w .empty :=
  ⟨_, rfl, rfl⟩

variable [LawfulWorkshop W]

theorem put_replace (store : ArtifactStore) (w : W) (x : ArtifactIndex) :
    Put store w (store.replace w x) x.holdings := by
  cases store with
  | memory y => exact ⟨rfl, rfl, ⟨x, rfl, rfl⟩, Spares.refl _ _, Quiet.refl _⟩
  | file root =>
    have hsave : (ArtifactStore.file root).replace w x = (.ok (), .file root,
        (World.writeText w (documentPath root) x.toJson.pretty).2) := by
      rw [replace, Document.save_result]
    obtain ⟨y, hy, ha, hh⟩ := x.ofJson?_toJson
    rw [hsave]
    refine ⟨rfl, rfl, ⟨y, ?_, ArtifactIndex.holdings_eq ha hh⟩, LawfulWorkshop.write_spares _ _ _,
      LawfulWorkshop.write_quiet _ _ _⟩
    rw [index, Document.load_saved x.plain_toJson hy rfl]
    rfl

theorem Shows.insertArtifact (hs : store.Shows w h) (print : String) (path : FilePath) :
    Put store w (store.insertArtifact w print path) (h.setArtifact print path) := by
  obtain ⟨x, hx, rfl⟩ := hs
  rw [ArtifactStore.insertArtifact, hx, ← x.holdings_insertArtifact]
  exact put_replace store w _

theorem Shows.insertHeader (hs : store.Shows w h) (parts : List PartId) (scope : Scope)
    (path : FilePath) :
    Put store w (store.insertHeader w parts scope path) (h.assign parts scope (some path)) := by
  obtain ⟨x, hx, rfl⟩ := hs
  rw [ArtifactStore.insertHeader, hx, ← x.holdings_setHeaders]
  exact put_replace store w _

theorem Shows.deleteHeader (hs : store.Shows w h) (parts : List PartId) (scope : Scope) :
    Put store w (store.deleteHeader w parts scope) (h.assign parts scope none) := by
  obtain ⟨x, hx, rfl⟩ := hs
  rw [← x.holdings_deleteHeaders]
  obtain hput | ⟨hnone, hsame⟩ := store.deleteHeader_cases hx parts scope
  · rw [hput]
    exact put_replace store w _
  · rw [hsame, x.holdings_deleteHeaders, ArtifactIndex.assign_none_of_hasHeader hnone]
    exact ⟨rfl, rfl, ⟨x, hx, rfl⟩, Spares.refl _ _, Quiet.refl _⟩

end ArtifactStore

/-- Recording an outcome gives the named parts its header, or takes theirs away. -/
theorem Build.put_record {W : Type} [Workshop W] [LawfulWorkshop W] {store : ArtifactStore} {w : W}
    {h : Holdings} (hs : store.Shows w h) (scope : Scope) (parts : List PartId)
    (outcome : Outcome) : store.Put w (Build.record store w scope parts outcome)
      (h.assign parts scope outcome.header?) := by
  cases outcome with
  | built path reused => exact hs.insertHeader parts scope path
  | empty | failed => exact hs.deleteHeader parts scope

end PrecompiledHeaders
