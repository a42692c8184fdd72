import Mathlib.Data.List.MinMax
import NodeFleet.Settings.Load

set_option autoImplicit false
namespace NodeFleet

namespace Files
variable {files : Files} {name path text : String}

theorem length_above (name : String) (n : Nat) : (above name n).length = 3 * n + name.length := by
  induction n with
  | zero => simp [above]
  | succ n ih =>
    rw [above, String.length_append, ih]
    change 3 + (3 * n + name.length) = _
    omega

theorem length_le_of_text? (found : files.text? path = some text) :
    path.length ≤ (files.map (·.1.length)).foldr max 0 := by
  obtain ⟨f, first, rfl⟩ := Option.map_eq_some_iff.mp found
  have here : f.1 = path := by simpa using List.find?_some first
  have mem : path.length ∈ files.map (·.1.length) :=
    List.mem_map.mpr ⟨f, List.mem_of_find?_eq_some first, by rw [here]⟩
  exact List.le_max_of_le' 0 mem (Nat.le_refl _)

theorem findSome?_range {α : Type} {f : Nat → Option α} {n : Nat} {a : α} :
    (List.range n).findSome? f = some a ↔ ∃ k < n, f k = some a ∧ ∀ i < k, f i = none := by
  induction n with
  | zero => simp
  | succ n ih =>
    rw [List.range_succ, List.findSome?_append, Option.or_eq_some_iff, ih]
    constructor
    · rintro (⟨k, below, found, first⟩ | ⟨none, found⟩)
      · exact ⟨k, Nat.lt_succ_of_lt below, found, first⟩
      · have here : f n = some a := by simpa using found
        refine ⟨n, Nat.lt_succ_self n, here, fun i below => ?_⟩
        exact List.findSome?_eq_none_iff.mp none i (List.mem_range.mpr below)
    · rintro ⟨k, below, found, first⟩
      rcases Nat.lt_succ_iff_lt_or_eq.mp below with earlier | rfl
      · exact .inl ⟨k, earlier, found, first⟩
      · have none := List.findSome?_eq_none_iff.mpr fun i mem => first i (List.mem_range.mp mem)
        exact .inr ⟨none, by simpa using found⟩

/-- However far above the working directory the file is, it is the nearest that counts. -/
theorem nearest?_eq_some_iff : files.nearest? name = some text ↔
    ∃ n, files.text? (above name n) = some text ∧ ∀ k < n, files.text? (above name k) = none := by
  rw [nearest?, findSome?_range]
  constructor
  · rintro ⟨n, -, found⟩
    exact ⟨n, found⟩
  · rintro ⟨n, found⟩
    have short := length_le_of_text? found.1
    rw [length_above] at short
    exact ⟨n, by omega, found⟩

end Files

namespace SettingsFile

theorem Format.eq_of_mem_endings {f g : Format} {ending : String} (hf : ending ∈ f.endings)
    (hg : ending ∈ g.endings) : f = g := by
  have apart : ∀ e ∈ f.endings, e ∈ g.endings → f = g := by
    cases f <;> cases g <;> decide
  exact apart ending hf hg

namespace Library
variable {library : Library} {files : Files} {name : String}

theorem layer?_of_none (bare : files.text? name = none)
    (none : ∀ f : Format, ∀ ending ∈ f.endings, files.text? (name ++ "." ++ ending) = none) :
    library.layer? files name = some [] := by
  have nothing : library.find? files name = Option.none := by
    refine List.findSome?_eq_none_iff.mpr fun f _ => ?_
    refine List.findSome?_eq_none_iff.mpr fun ending mem => ?_
    rw [none f ending mem]
    rfl
  rw [layer?, bare, nothing]

/-- A file that is the only one of its name is the layer, whatever the order of the formats. -/
theorem layer?_of_only {f : Format} {ending text : String} (mem : ending ∈ f.endings)
    (found : files.text? (name ++ "." ++ ending) = some text) (bare : files.text? name = none)
    (only : ∀ g : Format, ∀ other ∈ g.endings, other ≠ ending →
      files.text? (name ++ "." ++ other) = none) :
    library.layer? files name = library.entries? f text := by
  have here (g : Format) {made : Format × String}
      (first : (g.endings.findSome? fun other =>
        (files.text? (name ++ "." ++ other)).map fun s => (g, s)) = some made) :
      made = (f, text) := by
    obtain ⟨other, other_mem, told⟩ := List.exists_of_findSome?_eq_some first
    by_cases same : other = ending
    · subst same
      obtain rfl := Format.eq_of_mem_endings other_mem mem
      rw [found] at told
      exact (Option.some.inj told).symm
    · rw [only g other other_mem same] at told
      cases told
  cases made : library.find? files name with
  | some p =>
    obtain ⟨g, -, first⟩ := List.exists_of_findSome?_eq_some made
    rw [layer?, bare, made, here g first]
  | none =>
    have missed := List.findSome?_eq_none_iff.mp made f (library.complete f)
    have absent := List.findSome?_eq_none_iff.mp missed ending mem
    rw [found] at absent
    cases absent

end Library
end SettingsFile
end NodeFleet
