import Mathlib.Data.List.Induction
import NodeFleet.Proofs.Parent.Proxies
import NodeFleet.Proofs.Records

set_option autoImplicit false
namespace NodeFleet

namespace ProxyVariables
variable {v : Json} {p : ProxyVariables} {given : Json → Prop}

/-- A document that can be read, with the entries it lists. -/
structure Shows (v : Json) (p : ProxyVariables) : Prop where
  readable : (ofJson? v).isSome = true
  entries : v.field? "entries" = some (.ofTexts p.entries) ∨ v = .list [.ofTexts p.entries]

theorem shows_of_ofJson? (read : ofJson? v = some p) : Shows v p := by
  refine ⟨by rw [read]; rfl, ?_⟩
  rw [ofJson?] at read
  split at read
  · rename_i entries record
    obtain ⟨texts, listed, rfl⟩ := Option.map_eq_some_iff.mp read
    obtain rfl := Json.asTexts?_eq_some_iff.mp listed
    rcases Json.record?_eq_some record with named | ⟨items, rfl, values⟩
    · exact .inl (List.cons.inj named).1
    · refine .inr (congrArg Json.list ?_)
      exact List.map_injective_iff.mpr (Option.some_injective _) values
  · cases read

theorem Shows.ofJson? (h : Shows v p) : ofJson? v = some p := by
  obtain ⟨q, read⟩ := Option.isSome_iff_exists.mp h.readable
  have same : q.entries = p.entries := by
    rcases h.entries with named | rfl <;>
      rcases (shows_of_ofJson? read).entries with other | other
    · exact Json.ofTexts_injective (Option.some.inj (other.symm.trans named))
    · rw [other] at named
      cases named
    · cases other
    · exact (Json.ofTexts_injective (List.cons.inj (Json.list.inj other)).1).symm
  rw [read]
  exact congrArg (fun entries => some (ProxyVariables.mk entries)) same

/-- Values as they are made, and what becomes of them, from given documents on. -/
inductive Obtained (given : Json → Prop) : ProxyVariables → Prop
  | empty : Obtained given .empty
  | read {v : Json} {p : ProxyVariables} (allowed : given v) (h : ofJson? v = some p) :
      Obtained given p
  | inserted {p : ProxyVariables} (entry : String) (h : Obtained given p) :
      Obtained given (p.insert entry)

theorem prefix_insert (p : ProxyVariables) (entry : String) :
    p.entries <+: (p.insert entry).entries := by
  by_cases known : entry ∈ p.entries
  · rw [insert_of_mem known]
  · rw [insert_entries_of_not_mem known]
    exact List.prefix_append _ _

theorem prefix_insertAll (p : ProxyVariables) (entries : List String) :
    p.entries <+: (p.insertAll entries).entries := by
  induction entries generalizing p with
  | nil => exact List.prefix_rfl
  | cons e r ih => exact (prefix_insert p e).trans (ih (p.insert e))

theorem nodup_insertAll_iff (entries : List String) :
    (p.insertAll entries).entries.Nodup ↔ p.entries.Nodup :=
  ⟨fun h => h.sublist (prefix_insertAll p entries).sublist, fun h => nodup_insertAll h entries⟩

theorem Obtained.nodup (h : Obtained given p)
    (sound : ∀ v p, given v → ofJson? v = some p → p.entries.Nodup) : p.entries.Nodup := by
  induction h with
  | empty => exact List.nodup_nil
  | read allowed h => exact sound _ _ allowed h
  | inserted entry _ ih => exact nodup_insert entry ih

theorem obtained_of_nodup (given : Json → Prop) {entries : List String} (h : entries.Nodup) :
    Obtained given ⟨entries⟩ := by
  induction entries using List.reverseRecOn with
  | nil => exact .empty
  | append_singleton entries last ih =>
    obtain ⟨before, -, fresh⟩ := List.nodup_append.mp h
    have unknown : last ∉ entries := fun mem => fresh last mem last List.mem_cons_self rfl
    have grown : (⟨entries ++ [last]⟩ : ProxyVariables) = insert ⟨entries⟩ last :=
      congrArg mk (insert_entries_of_not_mem unknown).symm
    rw [grown]
    exact .inserted last (ih before)

end ProxyVariables

namespace CreationStatus
variable {v : Json} {s : CreationStatus} {given : Json → Prop}

/-- A success has a port, and nothing else has. -/
def Sound (s : CreationStatus) : Prop := s.success = true ↔ s.mappedPort.isSome = true

structure Shows (v : Json) (s : CreationStatus) : Prop where
  readable : (ofJson? v).isSome = true
  fields : (v.field? "success" = some (.bool s.success) ∧
      v.field? "container_name" = some (.text s.containerName) ∧
      (v.field? "mapped_port").getD .null = .ofOption s.mappedPort) ∨
    v = .list [.bool s.success, .text s.containerName, .ofOption s.mappedPort]

theorem shows_of_ofJson? (read : ofJson? v = some s) : Shows v s := by
  refine ⟨by rw [read]; rfl, ?_⟩
  rw [ofJson?] at read
  split at read
  · rename_i success name port record
    simp only [bind, Option.bind_eq_some_iff, pure, Option.some.injEq] at read
    obtain ⟨succeeded, own, text, named, mapped, told, rfl⟩ := read
    obtain rfl := Json.asBool?_eq_some own
    obtain rfl := Json.asText?_eq_some named
    have mapping := Json.ofOption_of_optional? told
    rcases Json.record?_eq_some record with fields | ⟨items, rfl, values⟩
    · simp only [fieldNames, List.map_cons, List.map_nil, List.cons.injEq, and_true] at fields
      obtain ⟨first, second, rfl⟩ := fields
      exact .inl ⟨first, second, mapping⟩
    · obtain ⟨last, -, rfl⟩ : ∃ last ∈ items, some last = port :=
        List.mem_map.mp (values ▸ .tail _ (.tail _ (.head _)))
      obtain rfl : last = .ofOption mapped := mapping
      exact .inr (congrArg Json.list (List.map_injective_iff.mpr (Option.some_injective _) values))
  · cases read

theorem Shows.ofJson? (h : Shows v s) : ofJson? v = some s := by
  obtain ⟨t, read⟩ := Option.isSome_iff_exists.mp h.readable
  have same : t = s := by
    rcases h.fields with ⟨success, name, port⟩ | rfl <;>
      rcases (shows_of_ofJson? read).fields with ⟨success', name', port'⟩ | other
    · have first := Json.bool.inj (Option.some.inj (success'.symm.trans success))
      have second := Json.text.inj (Option.some.inj (name'.symm.trans name))
      have third := Json.ofOption_injective (port'.symm.trans port)
      exact congr (congr (congrArg CreationStatus.mk first) second) third
    · rw [other] at name
      cases name
    · cases name'
    · obtain ⟨first, rest⟩ := List.cons.inj (Json.list.inj other)
      obtain ⟨second, rest⟩ := List.cons.inj rest
      have third := Json.ofOption_injective (List.cons.inj rest).1
      have whole := congr (congrArg CreationStatus.mk (Json.bool.inj first)) (Json.text.inj second)
      exact (congr whole third).symm
  rw [read, same]

inductive Obtained (given : Json → Prop) : CreationStatus → Prop
  | created (name port : String) : Obtained given (.created name port)
  | failed (name : String) : Obtained given (.failed name)
  | read {v : Json} {s : CreationStatus} (allowed : given v) (h : ofJson? v = some s) :
      Obtained given s

theorem Obtained.sound (h : Obtained given s)
    (read : ∀ v s, given v → ofJson? v = some s → s.Sound) : s.Sound := by
  cases h with
  | created name port => exact iff_of_true rfl rfl
  | failed name => exact iff_of_false nofun nofun
  | read allowed h => exact read _ _ allowed h

theorem obtained_of_sound (given : Json → Prop) (h : s.Sound) : Obtained given s := by
  obtain ⟨success, name, port⟩ := s
  cases port with
  | none =>
    obtain rfl : success = false := Bool.eq_false_iff.mpr fun own => nomatch h.mp own
    exact .failed name
  | some port =>
    obtain rfl : success = true := h.mpr rfl
    exact .created name port

end CreationStatus

/-- What holds of proxy variables and of the outcome of a creation holds of all values if and only
if it holds of what the documents say that are read. Without any, just the values can be made of
which it holds, however much is inserted; with all of them, every value whatever. -/
theorem records_are_as_sound_as_documents (given : Json → Prop) :
    ((∀ p, ProxyVariables.Obtained given p → p.entries.Nodup) ↔
        ∀ v p, given v → ProxyVariables.Shows v p → p.entries.Nodup) ∧
      ((∀ s, CreationStatus.Obtained given s → s.Sound) ↔
        ∀ v s, given v → CreationStatus.Shows v s → s.Sound) ∧
      (∀ (p : ProxyVariables) entries,
        (p.insertAll entries).entries.Nodup ↔ p.entries.Nodup) ∧
      (∀ p, ProxyVariables.Obtained (fun _ => False) p ↔ p.entries.Nodup) ∧
      (∀ s, CreationStatus.Obtained (fun _ => False) s ↔ s.Sound) ∧
      (∀ p, ProxyVariables.Obtained (fun _ => True) p) ∧
      ∀ s, CreationStatus.Obtained (fun _ => True) s := by
  refine ⟨⟨fun all v p allowed shows => ?_, fun documents p obtained => ?_⟩,
    ⟨fun all v s allowed shows => ?_, fun documents s obtained => ?_⟩,
    fun p => ProxyVariables.nodup_insertAll_iff, fun p => ⟨fun obtained => ?_, fun nodup => ?_⟩,
    fun s => ⟨fun obtained => ?_, fun sound => ?_⟩, fun p => ?_, fun s => ?_⟩
  · exact all p (.read allowed shows.ofJson?)
  · exact obtained.nodup fun v p allowed h =>
      documents v p allowed (ProxyVariables.shows_of_ofJson? h)
  · exact all s (.read allowed shows.ofJson?)
  · exact obtained.sound fun v s allowed h =>
      documents v s allowed (CreationStatus.shows_of_ofJson? h)
  · exact obtained.nodup fun _ _ none => none.elim
  · exact ProxyVariables.obtained_of_nodup _ nodup
  · exact obtained.sound fun _ _ none => none.elim
  · exact CreationStatus.obtained_of_sound _ sound
  · exact .read trivial p.ofJson?_toJson
  · exact .read trivial s.ofJson?_toJson

def repeatedEntries : Json := .object [("entries", .ofTexts ["a=1", "a=1"])]

def portlessSuccess : Json :=
  .object [("success", .bool true), ("container_name", .text "hub_1"), ("mapped_port", .null)]

theorem records_are_as_sound_as_documents_repeated :
    (¬ ∀ p, ProxyVariables.Obtained (· = repeatedEntries) p → p.entries.Nodup) ∧
      (¬ ∀ s, CreationStatus.Obtained (· = portlessSuccess) s → s.Sound) ∧
      ¬ (ProxyVariables.insertAll ⟨["a=1", "a=1"]⟩ ["b=2"]).entries.Nodup ∧
      ∀ s, CreationStatus.Obtained (· = repeatedEntries) s → s.Sound := by
  have repeated : ProxyVariables.Shows repeatedEntries ⟨["a=1", "a=1"]⟩ :=
    ⟨by decide, .inl rfl⟩
  have portless : CreationStatus.Shows portlessSuccess ⟨true, "hub_1", none⟩ :=
    ⟨by decide, .inl ⟨rfl, rfl, rfl⟩⟩
  obtain ⟨entries, -, kept, -⟩ := records_are_as_sound_as_documents (· = repeatedEntries)
  obtain ⟨-, status, -⟩ := records_are_as_sound_as_documents (· = portlessSuccess)
  obtain ⟨-, other, -⟩ := records_are_as_sound_as_documents (· = repeatedEntries)
  refine ⟨fun all => ?_, fun all => ?_, fun nodup => ?_, other.mpr ?_⟩
  · exact absurd (entries.mp all _ _ rfl repeated) (by decide)
  · exact absurd ((status.mp all _ _ rfl portless).mp rfl) (by decide)
  · exact absurd ((kept _ _).mp nodup) (by decide)
  · rintro v s rfl shows
    exact absurd shows.readable (by decide)

end NodeFleet
