import PrecompiledHeaders.Proofs.OrderOfUse
/-! The macros that a part uses. A scan may report one macro several times; what is kept is the first use
of each, in order of use. This determines the list: there is no other with these properties. -/
namespace PrecompiledHeaders.UsedMacro

/-- `uses` holds the first use of each macro that is reported. Where a use is reported first is its `idxOf`:
the earliest entry with this name and this order. -/
structure FirstUses (reported uses : List UsedMacro) : Prop where
  distinct : (uses.map (·.name)).Nodup
  ascending : uses.Pairwise fun a b => a.order ≤ b.order
  names : ∀ name, name ∈ uses.map (·.name) ↔ name ∈ reported.map (·.name)
  least : ∀ m ∈ uses, m ∈ reported ∧ ∀ x ∈ reported, x.name = m.name → m.order ≤ x.order
  /-- Macros that are first used at the same time are listed as they are reported. -/
  ties : uses.Pairwise fun a b => a.order = b.order → reported.idxOf a < reported.idxOf b

variable {reported uses uses' : List UsedMacro}

theorem firstUses_normalize (reported : List UsedMacro) :
    FirstUses reported (normalize reported) where
  distinct := nodup_map_keepFirst _ _ _
  ascending := (pairwise_inOrder _ _).sublist (keepFirst_sublist _ _ _)
  names name := by
    rw [normalize, mem_map_keepFirst]
    simp
  least m hm := by
    obtain ⟨hmem, -, hleast⟩ := least_of_leastOf? (mem_keepFirst_inOrder.mp hm)
    exact ⟨hmem, hleast⟩
  ties := (pairwise_idxOf_keepFirst _ _ _).imp fun {a b} hab horder =>
    ((stablyOrdered_inOrder _ _).idxOf_lt_iff horder).mp hab

namespace FirstUses

theorem nodup (h : FirstUses reported uses) : uses.Nodup := .of_map _ h.distinct

/-- The entries themselves are those that no report of the same macro precedes. -/
theorem mem_iff (h : FirstUses reported uses) {m : UsedMacro} :
    m ∈ uses ↔ m ∈ reported ∧ ∀ x ∈ reported, x.name = m.name → m.order ≤ x.order := by
  refine ⟨h.least m, fun ⟨hm, hleast⟩ => ?_⟩
  obtain ⟨m', hm', hname⟩ := List.mem_map.mp ((h.names m.name).mpr (List.mem_map_of_mem hm))
  obtain ⟨hreported, hleast'⟩ := h.least m' hm'
  have horder : m'.order = m.order :=
    Nat.le_antisymm (hleast' m hm hname.symm) (hleast m' hreported hname)
  have hsame : m' = m := by
    cases m
    cases m'
    simp_all
  exact hsame ▸ hm'

theorem unique (h : FirstUses reported uses) (h' : FirstUses reported uses') : uses = uses' := by
  have hperm : uses.Perm uses' := (List.perm_ext_iff_of_nodup h.nodup h'.nodup).mpr fun m => by
    rw [h.mem_iff, h'.mem_iff]
  refine List.Perm.eq_of_pairwise ?_ (h.ascending.and h.ties) (h'.ascending.and h'.ties) hperm
  intro a b _ _ ⟨hab, hties⟩ ⟨hba, hties'⟩
  have horder := Nat.le_antisymm hab hba
  exact absurd (hties horder) (Nat.lt_asymm (hties' horder.symm))

/-- First uses are their own first uses. -/
theorem refl (h : FirstUses reported uses) : FirstUses uses uses where
  distinct := h.distinct
  ascending := h.ascending
  names _ := Iff.rfl
  least m hm := ⟨hm, fun x hx hname => (h.least m hm).2 x (h.least x hx).1 hname⟩
  ties := List.pairwise_iff_getElem.mpr fun i j hi hj hij _ => by
    rwa [h.nodup.idxOf_getElem, h.nodup.idxOf_getElem]

end FirstUses

/-- The list that is kept tells the first use of each macro, and no other list does. To keep first uses
once more changes nothing, and how the uses are reported does not matter if no two have one order. -/
theorem normal_form (reported : List UsedMacro) :
    FirstUses reported (normalize reported) ∧
      (∀ uses, FirstUses reported uses → uses = normalize reported) ∧
      normalize (normalize reported) = normalize reported ∧
      ∀ reported', reported.Perm reported' → (reported.map (·.order)).Nodup →
        normalize reported' = normalize reported := by
  have hfirst := firstUses_normalize reported
  refine ⟨hfirst, fun uses h => h.unique hfirst, ?_, fun reported' hperm horders => ?_⟩
  · exact (firstUses_normalize _).unique hfirst.refl
  · rw [normalize, normalize, inOrder_eq_of_perm hperm horders]

/-- A macro that is used again, and one that is first used together with it. And three uses at different
times, reported in two ways. -/
theorem normal_form_again :
    normalize [⟨"B", 2⟩, ⟨"A", 5⟩, ⟨"C", 2⟩, ⟨"A", 2⟩, ⟨"B", 1⟩] = [⟨"B", 1⟩, ⟨"C", 2⟩, ⟨"A", 2⟩] ∧
      normalize [⟨"A", 2⟩, ⟨"B", 1⟩, ⟨"A", 5⟩] = normalize [⟨"A", 5⟩, ⟨"B", 1⟩, ⟨"A", 2⟩] := by
  constructor
  · have hfirst : FirstUses [⟨"B", 2⟩, ⟨"A", 5⟩, ⟨"C", 2⟩, ⟨"A", 2⟩, ⟨"B", 1⟩]
        [⟨"B", 1⟩, ⟨"C", 2⟩, ⟨"A", 2⟩] :=
      ⟨by decide, by decide, fun name => by simp; tauto, by decide, by decide⟩
    exact ((normal_form _).2.1 _ hfirst).symm
  · exact (normal_form _).2.2.2 _ (by decide) (by decide)

end PrecompiledHeaders.UsedMacro
