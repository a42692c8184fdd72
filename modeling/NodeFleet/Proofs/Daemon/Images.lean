import Mathlib
import NodeFleet.Daemon.Gateway
import NodeFleet.Node.Upkeep
import NodeFleet.Proofs.Text.Encoding
import NodeFleet.Proofs.World

set_option autoImplicit false
namespace NodeFleet

namespace Image

def ownTag? (i : Image) : Option String := i.repoTags.find? (· ≠ Daemon.untagged)

def isTagged (i : Image) : Bool := i.ownTag?.isSome

def own (i : Image) : Image := { i with repoTags := i.repoTags.filter (· ≠ Daemon.untagged) }

theorem own_head? (i : Image) : i.own.repoTags.head? = i.ownTag? := List.head?_filter

theorem own_isEmpty (i : Image) : (!i.own.repoTags.isEmpty) = i.isTagged := by
  rw [isTagged, ← own_head?]
  cases i.own.repoTags <;> rfl

/-- Of the images with a tag of their own none is newer, and of those listed later none as new. -/
structure Newest (listed : List Image) (i : Image) : Prop where
  tagged : i.isTagged = true
  greatest : ∀ j ∈ listed, j.isTagged = true → j.created ≤ i.created
  last : ∃ before after, listed = before ++ i :: after ∧
    ∀ j ∈ after, j.isTagged = true → j.created < i.created

section
variable {listed reordered : List Image} {i j x : Image}

theorem Newest.mem (h : Newest listed i) : i ∈ listed := by
  obtain ⟨before, after, rfl, -⟩ := h.last
  exact List.mem_append_right _ List.mem_cons_self

theorem newest_concat (tagged : x.isTagged = true)
    (all : ∀ j ∈ listed, j.isTagged = true → j.created ≤ x.created) : Newest (listed ++ [x]) x where
  tagged := tagged
  greatest j mem own := by
    rcases List.mem_append.mp mem with early | late
    · exact all j early own
    · exact Int.le_of_eq (congrArg created (List.mem_singleton.mp late))
  last := ⟨listed, [], rfl, nofun⟩

theorem Newest.concat (h : Newest listed i) (older : x.isTagged = true → x.created < i.created) :
    Newest (listed ++ [x]) i where
  tagged := h.tagged
  greatest j mem own := by
    rcases List.mem_append.mp mem with early | late
    · exact h.greatest j early own
    · obtain rfl := List.mem_singleton.mp late
      exact Int.le_of_lt (older own)
  last := by
    obtain ⟨before, after, rfl, later⟩ := h.last
    refine ⟨before, after ++ [x], by simp, fun j mem own => ?_⟩
    rcases List.mem_append.mp mem with mem | mem
    · exact later j mem own
    · obtain rfl := List.mem_singleton.mp mem
      exact older own

theorem Newest.unique (h : Newest listed i) (h' : Newest listed j) : i = j := by
  obtain ⟨before, after, rfl, later⟩ := h.last
  obtain ⟨before', after', split, later'⟩ := h'.last
  have upper := h'.greatest i h.mem h.tagged
  have lower := h.greatest j h'.mem h'.tagged
  rcases List.append_eq_append_iff.mp split with ⟨middle, -, rest⟩ | ⟨middle, -, rest⟩
  · cases middle with
    | nil => exact (List.cons.inj rest).1
    | cons k r =>
      obtain ⟨-, rfl⟩ := List.cons.inj rest
      have behind := later j (List.mem_append_right _ List.mem_cons_self) h'.tagged
      omega
  · cases middle with
    | nil => exact (List.cons.inj rest).1.symm
    | cons k r =>
      obtain ⟨-, rfl⟩ := List.cons.inj rest
      have behind := later' i (List.mem_append_right _ List.mem_cons_self) h.tagged
      omega

theorem newest?_concat (images : List Image) (x : Image) :
    newest? (images ++ [x]) = some ((newest? images).elim x (newer · x)) := by
  cases images with
  | nil => rfl
  | cons i r => simp [newest?]

def known (listed : List Image) : List Image :=
  (listed.map own).filter (!·.repoTags.isEmpty)

theorem known_concat : known (listed ++ [x]) =
    known listed ++ if x.isTagged then [x.own] else [] := by
  rw [known, List.map_append, List.filter_append, known]
  congr 1
  rw [List.map_singleton, List.filter_cons, own_isEmpty]
  rfl

theorem newest?_known (listed : List Image) :
    (∀ i ∈ listed, i.isTagged = false) ∧ newest? (known listed) = none ∨
      ∃ i, Newest listed i ∧ newest? (known listed) = some i.own := by
  induction listed using List.reverseRecOn with
  | nil => exact .inl ⟨nofun, rfl⟩
  | append_singleton listed x ih =>
    rw [known_concat]
    cases tagged : x.isTagged with
    | false =>
      rw [if_neg Bool.false_ne_true, List.append_nil]
      rcases ih with ⟨none, unchosen⟩ | ⟨i, newest, chosen⟩
      · refine .inl ⟨fun i mem => ?_, unchosen⟩
        rcases List.mem_append.mp mem with early | late
        · exact none i early
        · rwa [List.mem_singleton.mp late]
      · exact .inr ⟨i, newest.concat (by simp [tagged]), chosen⟩
    | true =>
      rw [if_pos rfl, newest?_concat]
      right
      rcases ih with ⟨none, unchosen⟩ | ⟨i, newest, chosen⟩
      · refine ⟨x, newest_concat tagged fun j mem own => ?_, by rw [unchosen]; rfl⟩
        rw [none j mem] at own
        cases own
      · rw [chosen, Option.elim_some, newer]
        by_cases later : i.created ≤ x.created
        · refine ⟨x, newest_concat tagged fun j mem own => ?_, congrArg some (if_pos later)⟩
          exact Int.le_trans (newest.greatest j mem own) later
        · exact ⟨i, newest.concat fun _ => Int.not_le.mp later, congrArg some (if_neg later)⟩

theorem Newest.eq_of_perm (h : Newest listed i) (h' : Newest reordered j)
    (perm : listed.Perm reordered)
    (distinct : ((listed.filter isTagged).map created).Nodup) : i = j := by
  have mem := perm.mem_iff.mpr h'.mem
  have upper := h'.greatest i (perm.mem_iff.mp h.mem) h.tagged
  have lower := h.greatest j mem h'.tagged
  exact List.inj_on_of_nodup_map distinct (List.mem_filter.mpr ⟨h.mem, h.tagged⟩)
    (List.mem_filter.mpr ⟨mem, h'.tagged⟩) (Int.le_antisymm upper lower)

end

/-- What is chosen from a listing for a name. -/
def IsChoice (listed : List Image) (name choice : String) : Prop :=
  (∃ i, Newest listed i ∧ i.ownTag? = some choice) ∨
    (∀ i ∈ listed, i.ownTag? = none) ∧ choice = name

theorem isTagged_eq_false_iff {i : Image} : i.isTagged = false ↔ i.ownTag? = none := by
  rw [isTagged, Option.isSome_eq_false_iff, Option.isNone_iff_eq_none]

theorem isChoice_latestTag? (listed : List Image) (name : String) :
    IsChoice listed name ((latestTag? (listed.map own)).getD name) := by
  change IsChoice listed name (((newest? (known listed)).bind (·.repoTags.head?)).getD name)
  rcases newest?_known listed with ⟨none, unchosen⟩ | ⟨i, newest, chosen⟩
  · rw [unchosen]
    exact .inr ⟨fun i mem => isTagged_eq_false_iff.mp (none i mem), rfl⟩
  · obtain ⟨tag, own⟩ := Option.isSome_iff_exists.mp newest.tagged
    rw [chosen, Option.bind_some, own_head?, own]
    exact .inl ⟨i, newest, own⟩

theorem IsChoice.eq_of_perm {listed reordered : List Image} {name choice other : String}
    (h : IsChoice listed name choice) (h' : IsChoice reordered name other)
    (perm : listed.Perm reordered)
    (distinct : ((listed.filter isTagged).map created).Nodup) : choice = other := by
  rcases h with ⟨i, newest, own⟩ | ⟨none, rfl⟩ <;> rcases h' with ⟨j, newest', own'⟩ | ⟨none', rfl⟩
  · obtain rfl := newest.eq_of_perm newest' perm distinct
    exact Option.some.inj (own.symm.trans own')
  · cases own.symm.trans (none' i (perm.mem_iff.mp newest.mem))
  · cases own'.symm.trans (none j (perm.mem_iff.mpr newest'.mem))
  · rfl

end Image

namespace Daemon

theorem presentTexts?_eq_some {given : Option Json} {texts : List String}
    (read : presentTexts? given = some texts) :
    given = some (.ofTexts texts) ∨ given = some .null ∧ texts = [] := by
  cases given with
  | none => cases read
  | some v =>
    by_cases null : v = .null
    · subst null
      obtain rfl := Option.some.inj read
      exact .inr ⟨rfl, rfl⟩
    · rw [presentTexts?, texts?, orEmpty, Json.optional?.eq_3 _ _ null, Option.map_map] at read
      obtain ⟨listed, own, rfl⟩ := Option.map_eq_some_iff.mp read
      rw [Json.asTexts?_eq_some_iff.mp own]
      exact .inl rfl

/-- An entry of a listing that can be read, with all the tags it gives. -/
structure Shows (v : Json) (i : Image) : Prop where
  isImage : (image? v).isSome = true
  id : v.field? "Id" = some (.text i.id)
  tags : v.field? "RepoTags" = some (.ofTexts i.repoTags) ∨
    v.field? "RepoTags" = some .null ∧ i.repoTags = []
  created : v.field? "Created" = some (.integer i.created)

theorem exists_shows {v : Json} {known : Image} (read : image? v = some known) :
    ∃ i, Shows v i ∧ known = i.own := by
  have isImage : (image? v).isSome = true := by
    rw [read]
    rfl
  obtain ⟨values, fields, chosen⟩ := Option.bind_eq_some_iff.mp read
  cases v with
  | object given =>
    have named := Json.field?_of_namedFields? fields
    split at chosen
    · simp only [bind, Option.bind_eq_some_iff, pure, Option.some.injEq] at chosen
      obtain ⟨id, named_id, _, _, tags, listed, _, _, _, _, created, time, _, _, _, _, _, _, rfl⟩ :=
        chosen
      simp only [imageFieldNames, List.map_cons, List.map_nil, List.cons.injEq] at named
      obtain ⟨own_id, -, own_tags, -, -, own_created, -⟩ := named
      refine ⟨⟨id, tags, created⟩, ⟨isImage, ?_, ?_, ?_⟩, rfl⟩
      · rw [own_id, Json.asText?_eq_some named_id]
      · rw [own_tags]
        exact presentTexts?_eq_some listed
      · rw [own_created, Json.asSigned?_eq_some time]
    · cases chosen
  | _ => cases fields

theorem Shows.unique {v : Json} {i j : Image} (h : Shows v i) (h' : Shows v j) : i = j := by
  have id : i.id = j.id := Json.text.inj (Option.some.inj (h.id.symm.trans h'.id))
  have created : i.created = j.created :=
    Json.integer.inj (Option.some.inj (h.created.symm.trans h'.created))
  have tags : i.repoTags = j.repoTags := by
    rcases h.tags with given | ⟨given, none⟩ <;> rcases h'.tags with given' | ⟨given', none'⟩
    · exact Json.ofTexts_injective (Option.some.inj (given.symm.trans given'))
    · cases given.symm.trans given'
    · cases given.symm.trans given'
    · rw [none, none']
  exact congr (congr (congrArg Image.mk id) tags) created

theorem image?_of_shows {v : Json} {i : Image} (h : Shows v i) : image? v = some i.own := by
  obtain ⟨known, read⟩ := Option.isSome_iff_exists.mp h.isImage
  obtain ⟨j, shows, rfl⟩ := exists_shows read
  rw [read, h.unique shows]

theorem mapM_image? {items : List Json} {listed : List Image}
    (h : List.Forall₂ Shows items listed) :
    items.mapM image? = some (listed.map Image.own) := by
  induction h with
  | nil => rfl
  | cons shows _ ih =>
    rw [List.mapM_cons, image?_of_shows shows, ih]
    rfl

theorem exists_shown {items : List Json} {known : List Image}
    (read : items.mapM image? = some known) : ∃ listed, List.Forall₂ Shows items listed := by
  induction items generalizing known with
  | nil => exact ⟨[], .nil⟩
  | cons v r ih =>
    rw [List.mapM_cons] at read
    obtain ⟨i, first, read⟩ := Option.bind_eq_some_iff.mp read
    obtain ⟨others, rest, -⟩ := Option.bind_eq_some_iff.mp read
    obtain ⟨own, shows, -⟩ := exists_shows first
    obtain ⟨listed, shown⟩ := ih rest
    exact ⟨own :: listed, .cons shows shown⟩

end Daemon

section
variable {τ : Type} {transport : Transport τ} {name : String} {link : Link τ} {listed : List Image}

/-- The daemon answers with entries that show these images. -/
def Lists (transport : Transport τ) (name : String) (link : Link τ) (listed : List Image) : Prop :=
  ∃ wire items, Gateway.Replies transport (.listImages name) link wire (.list items) ∧
    List.Forall₂ Daemon.Shows items listed

theorem listImages_of_lists (h : Lists transport name link listed) :
    (Gateway.engine transport (.listImages name) link).1 = .ok (listed.map Image.own) := by
  obtain ⟨wire, items, replied, shown⟩ := h
  have asked := Gateway.askFor_of_replies (Json.asList? Daemon.image?) replied
  have read : Json.asList? Daemon.image? (.list items) = some (listed.map Image.own) :=
    Daemon.mapM_image? shown
  rw [read, Option.elim_some] at asked
  exact congrArg (·.1) asked

theorem exists_lists {known : List Image}
    (h : (Gateway.engine transport (.listImages name) link).1 = .ok known) :
    ∃ listed, Lists transport name link listed := by
  obtain ⟨wire, v, replied, read⟩ := Gateway.replies_of_askFor (Json.asList? Daemon.image?) h
  cases v with
  | list items =>
    obtain ⟨listed, shown⟩ := Daemon.exists_shown read
    exact ⟨listed, wire, items, replied, shown⟩
  | _ => cases read

end

namespace Action
variable {σ : Type} (engine : Engine σ)

theorem latestImage_answer (name : String) (w : World σ) : (latestImage engine name w).1 =
    ((engine (.listImages name) w.engine).1.toOption.bind Image.latestTag?).getD name := by
  rw [latestImage, bind_apply, call_answer]
  cases (engine (.listImages name) w.engine).1 with
  | error f => rfl
  | ok images =>
    change _ = (Image.latestTag? images).getD name
    cases chosen : Image.latestTag? images with
    | none => simp only [chosen]; rfl
    | some tag => simp only [chosen]; rfl

end Action

theorem isChoice_of_lists {τ : Type} {transport : Transport τ} {name : String} {w : World (Link τ)}
    {listed : List Image} (h : Lists transport name w.engine listed) :
    Image.IsChoice listed name (Action.latestImage (Gateway.engine transport) name w).1 := by
  rw [Action.latestImage_answer, listImages_of_lists h]
  exact Image.isChoice_latestTag? listed name

/-- From what the daemon lists for a name, the first tag of the last of the newest images with a tag
of its own is chosen; if none has one, or if the daemon cannot be asked, the name itself. So the
placeholder is chosen for no name but itself, and where no two images with a tag are equally old the
order of the listing is not to be seen. -/
theorem newest_tagged_image_is_chosen {τ τ' : Type} (transport : Transport τ) (name : String)
    (w : World (Link τ)) :
    let engine := Gateway.engine transport
    let choice := (Action.latestImage engine name w).1
    (∀ listed, Lists transport name w.engine listed → Image.IsChoice listed name choice) ∧
      ((∀ listed, ¬ Lists transport name w.engine listed) ↔
        ∃ f, (engine (.listImages name) w.engine).1 = .error f) ∧
      (∀ f, (engine (.listImages name) w.engine).1 = .error f → choice = name) ∧
      (choice = Daemon.untagged → name = Daemon.untagged) ∧
      ∀ (other : Transport τ') (w' : World (Link τ')) (listed reordered : List Image),
        Lists transport name w.engine listed → Lists other name w'.engine reordered →
        listed.Perm reordered → ((listed.filter Image.isTagged).map Image.created).Nodup →
        (Action.latestImage (Gateway.engine other) name w').1 = choice := by
  intro engine choice
  have failed (f : Fault) (fails : (engine (.listImages name) w.engine).1 = .error f) :
      choice = name := by
    change (Action.latestImage engine name w).1 = name
    rw [Action.latestImage_answer, fails]
    rfl
  have listed_or_failed : (∃ listed, Lists transport name w.engine listed) ∨
      ∃ f, (engine (.listImages name) w.engine).1 = .error f := by
    cases answer : (engine (.listImages name) w.engine).1 with
    | error f => exact .inr ⟨f, rfl⟩
    | ok known => exact .inl (exists_lists answer)
  refine ⟨fun listed => isChoice_of_lists, ⟨fun none => ?_, ?_⟩, failed, fun placeholder => ?_, ?_⟩
  · exact listed_or_failed.resolve_left fun ⟨listed, lists⟩ => none listed lists
  · rintro ⟨f, fails⟩ listed lists
    cases fails.symm.trans (listImages_of_lists lists)
  · rcases listed_or_failed with ⟨listed, lists⟩ | ⟨f, fails⟩
    · have chosen : Image.IsChoice listed name choice := isChoice_of_lists lists
      rw [placeholder] at chosen
      rcases chosen with ⟨i, -, own⟩ | ⟨-, same⟩
      · exact absurd (List.find?_some own) (by decide)
      · exact same.symm
    · exact (failed f fails).symm.trans placeholder
  · intro other w' listed reordered lists lists' perm distinct
    have chosen : Image.IsChoice listed name choice := isChoice_of_lists lists
    exact (chosen.eq_of_perm (isChoice_of_lists lists') perm distinct).symm

def imageShelf : List Image :=
  [⟨"a", ["<none>:<none>"], 3⟩, ⟨"b", ["<none>:<none>", "node:2"], 2⟩, ⟨"c", ["node:1"], 1⟩]

def imageData (i : Image) : Json :=
  .object [("Id", .text i.id), ("ParentId", .text ""), ("RepoTags", .ofTexts i.repoTags),
    ("RepoDigests", .null), ("Labels", .null), ("Created", .integer i.created),
    ("Size", .integer 1), ("SharedSize", .integer 0), ("Containers", .integer 0)]

def imageText (id tags created : String) : String :=
  "\x7b\"Id\":\"" ++ id ++ "\",\"ParentId\":\"\",\"RepoTags\":[" ++ tags ++
    "],\"RepoDigests\":null,\"Labels\":null,\"Created\":" ++ created ++
    ",\"Size\":1,\"SharedSize\":0,\"Containers\":0\x7d"

def untaggedText : String := imageText "a" "\"<none>:<none>\"" "3"

def secondText : String := imageText "b" "\"<none>:<none>\",\"node:2\"" "2"

def firstText : String := imageText "c" "\"node:1\"" "1"

def newestFirst : String := "[" ++ untaggedText ++ "," ++ secondText ++ "," ++ firstText ++ "]"

def newestLast : String := "[" ++ firstText ++ "," ++ secondText ++ "," ++ untaggedText ++ "]"

def shelfDaemon (listing : String) : Transport Unit := fun _ wire =>
  (.answered ⟨200, encodeText listing, false⟩, wire)

theorem shelfDaemon_lists {listing : String} {listed : List Image} (name : String)
    (read : Json.readChars? listing.toList = some (.list (listed.map imageData)))
    (shown : ∀ i ∈ listed, Daemon.Shows (imageData i) i) :
    Lists (shelfDaemon listing) name (Link.begin ()) listed := by
  refine ⟨(), listed.map imageData,
    ⟨⟨200, encodeText listing, false⟩, rfl, rfl, Response.json?_of_text rfl read⟩, ?_⟩
  exact List.forall₂_map_left_iff.mpr (List.forall₂_same.mpr shown)

set_option maxRecDepth 1024 in
theorem read_newestFirst :
    Json.readChars? newestFirst.toList = some (.list (imageShelf.map imageData)) := by
  simp only [newestFirst, untaggedText, secondText, firstText, imageText, String.toList_append]
  cbv

set_option maxRecDepth 1024 in
theorem read_newestLast :
    Json.readChars? newestLast.toList = some (.list (imageShelf.reverse.map imageData)) := by
  simp only [newestLast, untaggedText, secondText, firstText, imageText, String.toList_append]
  cbv

theorem newest_tagged_image_is_chosen_reversed :
    let start : World (Link Unit) := World.begin (Link.begin ())
    (Action.latestImage (Gateway.engine (shelfDaemon newestFirst)) "node" start).1 = "node:2" ∧
      (Action.latestImage (Gateway.engine (shelfDaemon newestLast)) "node" start).1 =
        "node:2" := by
  intro start
  have shown : ∀ i ∈ imageShelf, Daemon.Shows (imageData i) i := by
    intro i mem
    simp only [imageShelf, List.mem_cons, List.not_mem_nil, or_false] at mem
    obtain rfl | rfl | rfl := mem <;> exact ⟨by decide, rfl, .inl rfl, rfl⟩
  have lists : Lists (shelfDaemon newestFirst) "node" start.engine imageShelf :=
    shelfDaemon_lists "node" read_newestFirst shown
  have lists' : Lists (shelfDaemon newestLast) "node" start.engine imageShelf.reverse :=
    shelfDaemon_lists "node" read_newestLast fun i mem => shown i (List.mem_reverse.mp mem)
  obtain ⟨choice, -, -, -, same⟩ :=
    @newest_tagged_image_is_chosen Unit Unit (shelfDaemon newestFirst) "node" start
  have second : Image.Newest imageShelf ⟨"b", ["<none>:<none>", "node:2"], 2⟩ :=
    ⟨by decide, by decide, [_], [_], rfl, by decide⟩
  have chosen :
      (Action.latestImage (Gateway.engine (shelfDaemon newestFirst)) "node" start).1 =
        "node:2" := by
    rcases choice imageShelf lists with ⟨i, newest, own⟩ | ⟨none, -⟩
    · obtain rfl := newest.unique second
      exact (Option.some.inj own).symm
    · exact absurd (none _ second.mem) (by decide)
  refine ⟨chosen, ?_⟩
  rw [same (shelfDaemon newestLast) start imageShelf imageShelf.reverse lists lists'
    (List.reverse_perm _).symm (by decide)]
  exact chosen

end NodeFleet
