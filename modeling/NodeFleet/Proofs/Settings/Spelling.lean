import NodeFleet.Proofs.Number.Shortest
import NodeFleet.Proofs.Settings.Validity
import NodeFleet.Proofs.Settings.Decision

set_option autoImplicit false
namespace NodeFleet

def IsTruthWord (s : String) : Prop := lowerAscii s = "true" ∨ lowerAscii s = "false"

/-- What becomes of a text: the same truth value or number in its one spelling, else the text. -/
structure Respells (s t : String) : Prop where
  plain : ¬ IsTruthWord s → ¬ Binary64.IsNumeral s → t = s
  truth : IsTruthWord s → t = lowerAscii s
  whole : ∀ n, readSigned? maxI64 s = some n → t = toString n ∧ readSigned? maxI64 t = some n
  number : ∀ x, readSigned? maxI64 s = none → Binary64.read? s = some x →
    t = x.plainText ∧ Binary64.read? t = some x

/-- A text that stays as it is. -/
structure Stable (s : String) : Prop where
  truth : IsTruthWord s → s = "true" ∨ s = "false"
  whole : ∀ n, readSigned? maxI64 s = some n → s = toString n
  number : ∀ x, readSigned? maxI64 s = none → Binary64.read? s = some x → s = x.plainText

theorem IsTruthWord.not_isNumeral {s : String} (h : IsTruthWord s) : ¬ Binary64.IsNumeral s := by
  have lowered : s.toList.map Char.toLower = "true".toList ∨
      s.toList.map Char.toLower = "false".toList := by
    refine h.imp (fun same => ?_) (fun same => ?_)
    · rw [← same, lowerAscii, String.toList_ofList]
    · rw [← same, lowerAscii, String.toList_ofList]
  rintro ⟨sign, signed, cs, text, shape⟩
  rw [text] at lowered
  simp only [Binary64.signs, List.mem_cons, List.not_mem_nil, or_false] at signed
  rcases signed with rfl | rfl | rfl
  · rw [List.nil_append] at lowered
    rcases shape with word | decimal
    · rw [Binary64.lowerChars, Binary64.words] at word
      rcases lowered with lowered | lowered <;> rw [lowered] at word <;> simp at word
    · obtain ⟨c, r, rfl, first⟩ := decimal.head
      have letter : c.toLower = 't' ∨ c.toLower = 'f' :=
        lowered.imp (fun same => (List.cons.inj same).1) (fun same => (List.cons.inj same).1)
      have alpha : c.isAlpha = true := by
        rw [← Char.isAlpha_toLower_eq_isAlpha]
        rcases letter with letter | letter <;> rw [letter] <;> rfl
      rcases first with rfl | digit
      · cases alpha
      · exact not_isAlpha_of_isDigit digit alpha
  · rcases lowered with lowered | lowered <;> cases (List.cons.inj lowered).1
  · rcases lowered with lowered | lowered <;> cases (List.cons.inj lowered).1

namespace Respells
variable {s t : String}

theorem of_truth (h : IsTruthWord s) : Respells s (lowerAscii s) where
  plain other := absurd h other
  truth _ := rfl
  whole _ read := absurd (Binary64.isNumeral_of_readSigned? read) h.not_isNumeral
  number _ _ read :=
    absurd (Binary64.isSome_read?.mp (Option.isSome_of_eq_some read)) h.not_isNumeral

theorem of_whole {n : Int} (h : readSigned? maxI64 s = some n) : Respells s (toString n) where
  plain _ other := absurd (Binary64.isNumeral_of_readSigned? h) other
  truth word := absurd (Binary64.isNumeral_of_readSigned? h) word.not_isNumeral
  whole k read := by
    obtain rfl := Option.some.inj (h.symm.trans read)
    obtain ⟨low, high⟩ := readSigned?_bounds h
    exact ⟨rfl, readSigned?_toString low high⟩
  number _ none _ := by
    rw [h] at none
    cases none

theorem of_number {x : Binary64} (fraction : readSigned? maxI64 s = none)
    (h : Binary64.read? s = some x) : Respells s x.plainText where
  plain _ other := absurd (Binary64.isSome_read?.mp (Option.isSome_of_eq_some h)) other
  truth word := absurd (Binary64.isSome_read?.mp (Option.isSome_of_eq_some h)) word.not_isNumeral
  whole _ read := by
    rw [fraction] at read
    cases read
  number y _ read := by
    obtain rfl := Option.some.inj (h.symm.trans read)
    exact ⟨rfl, Binary64.read?_plainText_of_read? h⟩

theorem of_plain (untrue : ¬ IsTruthWord s) (h : Binary64.read? s = none) : Respells s s where
  plain _ _ := rfl
  truth word := absurd word untrue
  whole _ read := by
    have numeral := Binary64.isSome_read?.mpr (Binary64.isNumeral_of_readSigned? read)
    rw [h] at numeral
    cases numeral
  number _ _ read := by
    rw [h] at read
    cases read

theorem not_blank (h : Respells s t) (shown : isBlank s = false) : isBlank t = false := by
  by_cases word : IsTruthWord s
  · rw [h.truth word]
    rcases word with word | word <;> rw [word] <;> decide
  by_cases numeral : Binary64.IsNumeral s
  · cases whole : readSigned? maxI64 s with
    | some n => exact (Binary64.isNumeral_of_readSigned? (h.whole n whole).2).not_blank
    | none =>
      obtain ⟨x, read⟩ := Option.isSome_iff_exists.mp (Binary64.isSome_read?.mpr numeral)
      have again := (h.number x whole read).2
      exact (Binary64.isSome_read?.mp (Option.isSome_of_eq_some again)).not_blank
  · rw [h.plain word numeral]
    exact shown

theorem eq_iff (h : Respells s t) : t = s ↔ Stable s := by
  constructor
  · rintro rfl
    exact {
      truth := fun word => by
        rw [h.truth word]
        exact word
      whole := fun n read => (h.whole n read).1
      number := fun x none read => (h.number x none read).1 }
  · intro stable
    by_cases word : IsTruthWord s
    · rw [h.truth word]
      rcases stable.truth word with rfl | rfl <;> decide
    by_cases numeral : Binary64.IsNumeral s
    · cases whole : readSigned? maxI64 s with
      | some n => rw [(h.whole n whole).1, ← stable.whole n whole]
      | none =>
        obtain ⟨x, read⟩ := Option.isSome_iff_exists.mp (Binary64.isSome_read?.mpr numeral)
        rw [(h.number x whole read).1, ← stable.number x whole read]
    · exact h.plain word numeral

end Respells

theorem exists_respelled (s : String) :
    ∃ t, (SettingValue.ofVariable s).asText? = some t ∧ Respells s t := by
  rw [SettingValue.ofVariable]
  by_cases yes : lowerAscii s = "true"
  · refine ⟨lowerAscii s, ?_, .of_truth (.inl yes)⟩
    rw [if_pos yes, yes]
    rfl
  by_cases no : lowerAscii s = "false"
  · refine ⟨lowerAscii s, ?_, .of_truth (.inr no)⟩
    rw [if_neg yes, if_pos no, no]
    rfl
  rw [if_neg yes, if_neg no]
  cases whole : readSigned? maxI64 s with
  | some n => exact ⟨toString n, rfl, .of_whole whole⟩
  | none =>
    cases number : Binary64.read? s with
    | some x => exact ⟨x.plainText, rfl, .of_number whole number⟩
    | none => exact ⟨s, rfl, .of_plain (not_or.mpr ⟨yes, no⟩) number⟩

theorem SettingValue.ofVariables_filter (all : List (String × String)) :
    ofVariables (all.filter fun v => (variableKey? v.1).isSome) = ofVariables all := by
  rw [ofVariables, List.filterMap_filter, ofVariables]
  refine List.filterMap_congr fun v _ => ?_
  cases variableKey? v.1 <;> rfl

namespace Settings
open SettingValue

inductive TextSetting
  | logLevel
  | parentContainer
  | nodeImage
  | socket
deriving DecidableEq, Repr

namespace TextSetting

def setting : TextSetting → Setting
  | .logLevel => .logLevel
  | .parentContainer => .parentContainer
  | .nodeImage => .nodeImage
  | .socket => .socket

def put (text : String) (s : Settings) : TextSetting → Settings
  | .logLevel => { s with logLevel := text }
  | .parentContainer => { s with parentContainer := text }
  | .nodeImage => { s with nodeImage := text }
  | .socket => { s with engine := { s.engine with socket := some text } }

theorem outline_of_asText? {v : SettingValue} {text : String} (reads : v.asText? = some text) :
    outline v = v := by
  cases v with
  | list | table => cases reads
  | _ => rw [outline] <;> simp

theorem decode?_put (x : TextSetting) {v merged : SettingValue} {text : String}
    (reads : v.asText? = some text)
    (same : outline merged = putAll root (entriesOf (nest (x.setting.path.map .name) v))) :
    decode? merged = some (x.put text .default) := by
  rw [root_eq] at same
  have table : merged.isTable = true := by
    rw [← isTable_outline, same]
    cases x <;> cases v <;> cases reads <;> rfl
  have sections : ∀ name ∈ sections, ∃ entries, at? [name] merged = some (.table entries) := by
    intro name mem
    simp only [Settings.sections, List.mem_cons, List.not_mem_nil, or_false] at mem
    have there : ∃ entries, (at? [name] merged).map outline = some (.table entries) := by
      rw [← at?_outline, same]
      rcases mem with rfl | rfl | rfl <;> cases x <;> cases v <;> cases reads <;> exact ⟨_, rfl⟩
    obtain ⟨entries, there⟩ := there
    exact exists_table_of_outline there
  rw [decode?_eq_collect? table sections, collect?_eq_some]
  intro y
  rw [← y.decode?_outline, ← at?_outline, same]
  cases x <;> cases v <;> cases reads <;> cases y <;> rfl

theorem firstError_put (x : TextSetting) {text : String} (shown : isBlank text = false) :
    Condition.firstError (x.put text .default) Condition.all = none := by
  have default : ∀ c ∈ Condition.all, c.Holds .default :=
    Condition.firstError_eq_none.mp (by decide +kernel)
  have given : ∃ c ∈ text.toList, isBlankChar c = false :=
    not_isBlank_iff.mp (ne_true_of_eq_false shown)
  refine Condition.firstError_eq_none.mpr fun c mem => ?_
  cases c with
  | parentNamed =>
    cases x with
    | parentContainer => exact given
    | _ => exact default _ mem
  | imageNamed =>
    cases x with
    | nodeImage => exact given
    | _ => exact default _ mem
  | _ => cases x <;> exact default _ mem

theorem loadWith_of_text (x : TextSetting) {library : SettingsFile.Library}
    {environment : Table String} {files : Files} {name s t : String}
    (named : lowerKey name = x.setting.variableName)
    (only : (allVariables environment files).filter (fun v => (variableKey? v.1).isSome) =
      [(name, s)])
    (unfiled : ∀ name ∈ [SettingsFile.ownName, SettingsFile.systemName],
      library.layer? files name = some [])
    (reads : (ofVariable s).asText? = some t) (shown : isBlank t = false) :
    loadWith library environment files = .ok (x.put t .default) := by
  obtain ⟨key, found, path⟩ := x.setting.pathOf_variableKey? named
  have given : ofVariables (allVariables environment files) = [(key, ofVariable s)] := by
    rw [← ofVariables_filter, only, ofVariables, List.filterMap_cons_some (by rw [found]; rfl)]
    rfl
  have entries : outlineAll (spelled [(key, ofVariable s)]) =
      entriesOf (nest (x.setting.path.map .name) (ofVariable s)) := by
    have one : spelled [(key, ofVariable s)] =
        entriesOf (nest (x.setting.path.map .name) (ofVariable s)) := by
      rw [spelled_cons, path]
      exact List.append_nil _
    rw [one, ← entriesOf_outline, outline_nest, outline_of_asText? reads]
  obtain ⟨merged, whole, same⟩ := @outline_merged library environment files [] []
    (unfiled _ (by simp)) (unfiled _ (by simp))
  change outline merged =
    putAll root (outlineAll (spelled (ofVariables (allVariables environment files)))) at same
  rw [given, entries] at same
  rw [loadWith_of_decoded whole (x.decode?_put reads same), x.firstError_put shown]

end TextSetting

/-- A text setting that a variable gives, and nothing else, is the text itself unless this reads as a
truth value or a number that is spelled otherwise; then it is the usual spelling, which reads as the
same value. -/
theorem texts_are_respelled (x : TextSetting) {library : SettingsFile.Library}
    {environment : Table String} {files : Files} {name s : String}
    (named : lowerKey name = x.setting.variableName)
    (only : (allVariables environment files).filter (fun v => (variableKey? v.1).isSome) =
      [(name, s)])
    (unfiled : ∀ name ∈ [SettingsFile.ownName, SettingsFile.systemName],
      library.layer? files name = some []) (shown : isBlank s = false) :
    ∃ t, loadWith library environment files = .ok (x.put t .default) ∧ Respells s t ∧
      (t = s ↔ Stable s) := by
  obtain ⟨t, reads, respells⟩ := exists_respelled s
  exact ⟨t, x.loadWith_of_text named only unfiled reads (respells.not_blank shown), respells,
    respells.eq_iff⟩

theorem texts_are_respelled_image :
    load [("DOCKGRID__NODE_IMAGE", "007"), ("PATH", "/bin")] [] =
      .ok { default with nodeImage := "7" } := by
  have named : lowerKey "DOCKGRID__NODE_IMAGE" = TextSetting.nodeImage.setting.variableName := by
    decide
  have unfiled : ∀ name ∈ [SettingsFile.ownName, SettingsFile.systemName],
      SettingsFile.Library.plain.layer? [] name = some [] := fun _ _ => rfl
  obtain ⟨t, loaded, respells, -⟩ :=
    @texts_are_respelled .nodeImage .plain [("DOCKGRID__NODE_IMAGE", "007"), ("PATH", "/bin")] []
      "DOCKGRID__NODE_IMAGE" "007" named (by decide) unfiled (by decide)
  obtain ⟨rfl, -⟩ := respells.whole 7 (by decide)
  exact loaded

/-- Leading zeros of a text that reads as a whole number are lost. -/
theorem not_every_text_is_kept :
    ¬ ∀ s, isBlank s = false → ∃ settings, load [("DOCKGRID__NODE_IMAGE", s)] [] = .ok settings ∧
      settings.nodeImage = s := by
  intro kept
  obtain ⟨settings, loaded, same⟩ := kept "007" (by decide)
  have respelled : load [("DOCKGRID__NODE_IMAGE", "007")] [] =
      .ok { default with nodeImage := "7" } := by
    decide +kernel
  obtain rfl := Except.ok.inj (loaded.symm.trans respelled)
  exact absurd same (by decide)

end Settings
end NodeFleet
