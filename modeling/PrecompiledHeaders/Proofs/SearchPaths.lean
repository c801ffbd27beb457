import PrecompiledHeaders.Arguments
import PrecompiledHeaders.Config
import PrecompiledHeaders.Proofs.OrderOfUse
/-! Search paths on the command line. They are the last arguments, a flag and a path for each, and stand in
ascending order of their numbers, the built-in ones behind all others. What a configuration lists is numbered
as it is listed. -/
namespace PrecompiledHeaders

/-- What a search path leads to, whatever its number. -/
def SearchPath.directory (p : SearchPath) : SearchPathKind × String := (p.kind, p.path)

def Config.PathEntry.directory (default : SearchPathKind) (p : PathEntry) : SearchPathKind × String :=
  (p.kind.getD default, p.path)

namespace Arguments

/-- Frameworks have a flag of their own, the others the one of their list. -/
def ofDirectories (flag : String) (directories : List (SearchPathKind × String)) : List String :=
  directories.flatMap fun (kind, path) => [if kind = .framework then "-F" else flag, path]

theorem ofDirectories_map (flag : String) (paths : List SearchPath) :
    ofDirectories flag (paths.map SearchPath.directory) = paths.flatMap (flagged flag) :=
  List.flatMap_map ..

end Arguments

open Arguments (byIndex ofDirectories)

/-! ### Settings -/

namespace Settings

/-- The arguments up to the macros. -/
def leadingArguments (s : Settings) (input : InputKind) : List String :=
  s.toolchainArguments ++ Arguments.ofLanguage s input ++ Arguments.ofVersion s
    ++ Arguments.ofExtensions s.extensions ++ s.macros.map Arguments.ofMacro

/-- Both lists of search paths, in the order in which they are searched. -/
structure SearchOrder (s : Settings) (project system : List SearchPath) : Prop where
  inOrder : StablyOrdered (·.index) s.projectPaths project
  complete : system.Perm s.systemPaths
  builtinsLast : ∃ others builtins, system = others ++ builtins ∧
    StablyOrdered (·.index) (s.systemPaths.filter (·.kind ≠ .builtin)) others ∧
    StablyOrdered (·.index) (s.systemPaths.filter (·.kind = .builtin)) builtins

/-- The same settings with their search paths listed in another way. -/
structure Rearranged (s s' : Settings) : Prop where
  projectPaths : s.projectPaths.Perm s'.projectPaths
  systemPaths : s.systemPaths.Perm s'.systemPaths
  others : { s' with projectPaths := s.projectPaths, systemPaths := s.systemPaths } = s

variable {s s' : Settings}

/-- The system paths in the order in which they are searched. -/
def searchedSystemPaths (s : Settings) : List SearchPath :=
  (byIndex s.systemPaths).filter (·.kind ≠ .builtin) ++ (byIndex s.systemPaths).filter (·.kind = .builtin)

theorem searchOrder (s : Settings) : SearchOrder s (byIndex s.projectPaths) s.searchedSystemPaths := by
  have hsystem := stablyOrdered_inOrder (·.index) s.systemPaths
  have hparts : s.searchedSystemPaths.Perm (byIndex s.systemPaths) := by
    simpa [searchedSystemPaths] using
      List.filter_append_perm (fun p : SearchPath => p.kind ≠ .builtin) (byIndex s.systemPaths)
  exact ⟨stablyOrdered_inOrder _ _, hparts.trans hsystem.perm,
    _, _, rfl, hsystem.filter _, hsystem.filter _⟩

theorem arguments_eq (s : Settings) (input : InputKind) : s.arguments input = s.leadingArguments input ++
    ofDirectories "-I" ((byIndex s.projectPaths).map SearchPath.directory) ++
    ofDirectories "-isystem" (s.searchedSystemPaths.map SearchPath.directory) := by
  have hothers : (fun p : SearchPath => decide (p.kind ≠ .builtin)) = (! Arguments.isBuiltin ·) := by
    funext p
    exact decide_not
  rw [Arguments.ofDirectories_map, Arguments.ofDirectories_map, searchedSystemPaths, hothers]
  rfl

theorem Rearranged.arguments (h : Rearranged s s') (hproject : (s.projectPaths.map (·.index)).Nodup)
    (hsystem : (s.systemPaths.map (·.index)).Nodup) (input : InputKind) :
    s'.arguments input = s.arguments input := by
  have hprojectPaths : byIndex s'.projectPaths = byIndex s.projectPaths :=
    (inOrder_eq_of_perm h.projectPaths hproject).symm
  have hsystemPaths : byIndex s'.systemPaths = byIndex s.systemPaths :=
    (inOrder_eq_of_perm h.systemPaths hsystem).symm
  have hleading : s'.leadingArguments input = s.leadingArguments input := by
    -- the arguments up to the macros do not look at search paths
    calc s'.leadingArguments input
      _ = leadingArguments { s' with projectPaths := s.projectPaths, systemPaths := s.systemPaths }
          input := rfl
      _ = s.leadingArguments input := by rw [h.others]
  rw [arguments_eq, arguments_eq, searchedSystemPaths, searchedSystemPaths, hprojectPaths, hsystemPaths,
    hleading]

end Settings

/-! ### Configurations -/

namespace Config

/-- The search paths that lead there, numbered from `n` on. -/
def numbered (n : Nat) : List (SearchPathKind × String) → List SearchPath
  | [] => []
  | (kind, path) :: rest => ⟨path, n, kind⟩ :: numbered (n + 1) rest

theorem directories_numbered (n : Nat) (ds : List (SearchPathKind × String)) :
    (numbered n ds).map SearchPath.directory = ds := by
  induction ds generalizing n with
  | nil => rfl
  | cons d ds ih =>
    rw [numbered, List.map_cons, ih]
    rfl

theorem le_index_of_mem_numbered {n : Nat} {ds : List (SearchPathKind × String)} {p : SearchPath}
    (h : p ∈ numbered n ds) : n ≤ p.index := by
  induction ds generalizing n with
  | nil => exact absurd h List.not_mem_nil
  | cons d ds ih =>
    rcases List.mem_cons.mp h with rfl | h
    · exact Nat.le_refl _
    · exact Nat.le_of_succ_le (ih h)

theorem byIndex_numbered (n : Nat) (ds : List (SearchPathKind × String)) :
    byIndex (numbered n ds) = numbered n ds := by
  apply List.mergeSort_of_pairwise
  induction ds generalizing n with
  | nil => exact .nil
  | cons d ds ih =>
    refine List.pairwise_cons.mpr ⟨fun p hp => decide_eq_true ?_, ih (n + 1)⟩
    exact Nat.le_of_succ_le (le_index_of_mem_numbered hp)

theorem filter_numbered (p : SearchPathKind × String → Bool) (n : Nat)
    (ds : List (SearchPathKind × String)) :
    ((numbered n ds).filter fun q => p q.directory).map SearchPath.directory = ds.filter p := by
  rw [← Function.comp_def, ← List.filter_map, directories_numbered]

/-- Paths that are added one by one are numbered on from those that are there. -/
theorem foldl_add (add : Settings → String → SearchPathKind → Settings)
    (paths : Settings → List SearchPath)
    (hadd : ∀ s path kind, paths (add s path kind) = paths s ++ [⟨path, (paths s).length + 1, kind⟩])
    (default : SearchPathKind) (entries : List PathEntry) (s : Settings) :
    paths (entries.foldl (fun s p => add s p.path (p.kind.getD default)) s) =
      paths s ++ numbered ((paths s).length + 1) (entries.map (·.directory default)) := by
  induction entries generalizing s with
  | nil => simp [numbered]
  | cons p entries ih =>
    rw [List.foldl_cons, ih, hadd]
    simp [numbered, PathEntry.directory]

theorem foldl_keeps {α β : Type} (field : Settings → β) {step : Settings → α → Settings}
    (hstep : ∀ s a, field (step s a) = field s) (xs : List α) (s : Settings) :
    field (xs.foldl step s) = field s := by
  induction xs generalizing s with
  | nil => rfl
  | cons x xs ih => rw [List.foldl_cons, ih, hstep]

namespace PartEntry

theorem projectPaths_settings (e : PartEntry) :
    e.settings.projectPaths = numbered 1 (e.projectPaths.map (·.directory .user)) := by
  dsimp only [settings]
  rw [foldl_add Settings.addProjectPath Settings.projectPaths (fun _ _ _ => rfl),
    foldl_keeps Settings.projectPaths, foldl_keeps Settings.projectPaths]
  · rfl
  · exact fun _ _ => rfl
  · exact fun _ _ => rfl

theorem systemPaths_settings (e : PartEntry) :
    e.settings.systemPaths = numbered 1 (e.systemPaths.map (·.directory .system)) := by
  dsimp only [settings]
  rw [foldl_keeps Settings.systemPaths,
    foldl_add Settings.addSystemPath Settings.systemPaths (fun _ _ _ => rfl),
    foldl_keeps Settings.systemPaths]
  · rfl
  · exact fun _ _ => rfl
  · exact fun _ _ => rfl

/-- What an entry lists is on the command line as it is listed, but for the built-in system paths. -/
theorem arguments_settings (e : PartEntry) (input : InputKind) :
    let system := e.systemPaths.map (·.directory .system)
    e.settings.arguments input = e.settings.leadingArguments input ++
      ofDirectories "-I" (e.projectPaths.map (·.directory .user)) ++
      ofDirectories "-isystem" (system.filter (·.1 ≠ .builtin) ++ system.filter (·.1 = .builtin)) := by
  intro system
  rw [Settings.arguments_eq, Settings.searchedSystemPaths, projectPaths_settings, systemPaths_settings,
    byIndex_numbered, byIndex_numbered, directories_numbered, List.map_append]
  rw [← filter_numbered _ 1 system, ← filter_numbered _ 1 system]
  rfl

end PartEntry

theorem settings_toParts (c : Config) (base : FilePath) (files : FileTable) :
    (c.toParts base files).1.map (·.settings) = c.parts.map (·.settings) := by
  rw [toParts]
  induction c.parts generalizing files with
  | nil => rfl
  | cons e rest ih =>
    rw [partsFrom, List.map_cons, List.map_cons, ih]
    rfl

end Config

/-- The last arguments are search paths: a flag and a path for each, in the order in which they are searched.
How they are listed does not matter where their numbers tell them apart, and from a configuration they are
taken as they are listed, the built-in ones last. -/
theorem search_path_arguments (input : InputKind) :
    (∀ s : Settings, ∃ project system, s.SearchOrder project system ∧
      s.arguments input = s.leadingArguments input ++
        ofDirectories "-I" (project.map (·.directory)) ++
        ofDirectories "-isystem" (system.map (·.directory))) ∧
    (∀ s s' : Settings, s.Rearranged s' → (s.projectPaths.map (·.index)).Nodup →
      (s.systemPaths.map (·.index)).Nodup → s'.arguments input = s.arguments input) ∧
    ∀ (c : Config) (base : FilePath) (files : FileTable),
      (c.toParts base files).1.map (·.settings.arguments input) = c.parts.map fun e =>
        let system := e.systemPaths.map (·.directory .system)
        e.settings.leadingArguments input ++
          ofDirectories "-I" (e.projectPaths.map (·.directory .user)) ++
          ofDirectories "-isystem" (system.filter (·.1 ≠ .builtin) ++ system.filter (·.1 = .builtin)) := by
  refine ⟨fun s => ⟨_, _, s.searchOrder, s.arguments_eq input⟩,
    fun s s' h hproject hsystem => h.arguments hproject hsystem input, fun c base files => ?_⟩
  have hsettings := congrArg (List.map (Settings.arguments · input)) (c.settings_toParts base files)
  rw [List.map_map, List.map_map] at hsettings
  exact hsettings.trans (List.map_congr_left fun e _ => e.arguments_settings input)

def crossed : Settings := { Settings.default with
  projectPaths := [⟨"/b", 2, .user⟩, ⟨"/a", 1, .framework⟩]
  systemPaths := [⟨"/usr", 2, .system⟩, ⟨"/lib", 1, .builtin⟩] }

/-- Both lists from the other end. -/
def crossedBackwards : Settings := { crossed with
  projectPaths := crossed.projectPaths.reverse
  systemPaths := crossed.systemPaths.reverse }

theorem search_path_arguments_backwards : crossed.Rearranged crossedBackwards ∧
    crossedBackwards.arguments .header = crossed.arguments .header ∧
    crossedBackwards.arguments .header = ["-x", "c++-header", "-std=c++17", "-F", "/a", "-I", "/b",
      "-isystem", "/usr", "-isystem", "/lib"] := by
  have hbackwards : crossed.Rearranged crossedBackwards :=
    ⟨(List.reverse_perm _).symm, (List.reverse_perm _).symm, rfl⟩
  have hproject : byIndex crossedBackwards.projectPaths = crossedBackwards.projectPaths :=
    List.mergeSort_of_pairwise (by decide)
  have hsystem : byIndex crossedBackwards.systemPaths = crossedBackwards.systemPaths :=
    List.mergeSort_of_pairwise (by decide)
  refine ⟨hbackwards, (search_path_arguments .header).2.1 _ _ hbackwards (by decide) (by decide), ?_⟩
  rw [Settings.arguments_eq, Settings.searchedSystemPaths, hproject, hsystem]
  rfl

end PrecompiledHeaders
