import Ace3.Analysis.ReplayOutcome

/-!
# Replaying a Delta Twice

A second replay of the same delta finds every observable in its place and every change made. It
draws uuids for observables that it then does not need, and leaves the tree as it is.
-/

namespace Ace3.Analysis

open List
open Lib

/-! ## §1 Skeletons -/

namespace RootAnalysis

variable {rt : Runtime} {root root' : RootAnalysis} {parent : Parent} {uuid : NodeUuid}

def skeleton (root : RootAnalysis) :
    List NodeUuid × List (ObservableIdentity × List (AnalysisPath × Option AnalysisObject)) :=
  (root.children, root.observables.map fun o => (o.toObservableIdentity, o.analysis))

theorem skeleton_change (same : NodeUuid → NodeUuid → Bool) (changes : List (NodeUuid × Change)) :
    (root.change same changes).skeleton = root.skeleton := by
  simp only [skeleton, change, map_map]
  rfl

def slot (root : RootAnalysis) (uuid : NodeUuid) (modulePath : AnalysisPath) :
    Option (Option AnalysisObject) :=
  (root.getObservable uuid).bind (·.analysis.lookup modulePath)

section Congruence

variable (h : root.skeleton = root'.skeleton)

include h

theorem identities_of_skeleton : root.identities = root'.identities := by
  have hmap := congrArg (fun skeleton => skeleton.2.map Prod.fst) h
  simp only [skeleton, map_map] at hmap
  exact hmap

theorem slot_of_skeleton : root.slot = root'.slot := by
  funext uuid modulePath
  have hslot (root : RootAnalysis) : root.slot uuid modulePath =
      (root.skeleton.2.find? (·.1.uuid = uuid)).bind (·.2.lookup modulePath) := by
    simp only [slot, getObservable, skeleton, List.find?_map, Function.comp_def]
    cases root.observables.find? (·.uuid = uuid) <;> rfl
  rw [hslot, hslot, h]

theorem childrenOf_of_skeleton : root.childrenOf = root'.childrenOf := by
  funext parent
  cases parent with
  | root => exact congrArg Prod.fst h
  | analysis uuid modulePath =>
    have hslot := congrFun₂ (slot_of_skeleton h) uuid modulePath
    unfold slot at hslot
    simp only [childrenOf, hslot]

theorem shelf_of_skeleton : root.shelf rt parent = root'.shelf rt parent := by
  simp only [shelf, identities_of_skeleton h, childrenOf_of_skeleton h]

end Congruence

end RootAnalysis

/-! ## §2 Installing the analysis again -/

namespace RootAnalysis

variable {rt : Runtime} {root root' : RootAnalysis} {target : NodeUuid}
  {news : List Observable} {children : List NodeUuid}

/-- The two ways in which an analysis dict is rehydrated: nothing is installed, or the slot held
no analysis and gets one. -/
theorem rehydrateAnalysis_cases (rt : Runtime) (root : RootAnalysis) (target : NodeUuid)
    (dict : Option AnalysisDict) :
    ((root.rehydrateAnalysis rt target dict).1 = root ∧
      (replayParent rt root target dict = .root ∧ dict = none ∨
        ∃ d a, dict = some d ∧ root.slot target d.modulePath = some (some a) ∧
          replayParent rt root target dict = .analysis target d.modulePath)) ∨
    ∃ d, dict = some d ∧ (∀ a, root.slot target d.modulePath ≠ some (some a)) ∧
      (root.rehydrateAnalysis rt target dict).1 = root.addAnalysis target (rehydrated rt d) ∧
        replayParent rt root target dict = .analysis target (rehydrated rt d).modulePath := by
  unfold replayParent RootAnalysis.rehydrateAnalysis slot
  cases dict with
  | none => exact .inl ⟨rfl, .inl ⟨rfl, rfl⟩⟩
  | some d =>
    dsimp only
    split
    next a hslot => exact .inl ⟨rfl, .inr ⟨d, a, rfl, hslot, rfl⟩⟩
    next hslot => exact .inr ⟨d, rfl, fun a ha => hslot a ha, rfl, rfl⟩

variable {a : AnalysisObject}

theorem rehydrateAnalysis_kept (rt : Runtime) {d : AnalysisDict}
    (h : root.slot target d.modulePath = some (some a)) :
    (root.rehydrateAnalysis rt target (some d)).1 = root ∧
      replayParent rt root target (some d) = .analysis target d.modulePath := by
  unfold slot at h
  unfold replayParent RootAnalysis.rehydrateAnalysis
  simp only [h]
  exact ⟨trivial, rfl⟩

theorem rehydrateAnalysis_installed (rt : Runtime) {d : AnalysisDict}
    (h : ∀ a, root.slot target d.modulePath ≠ some (some a)) :
    (root.rehydrateAnalysis rt target (some d)).1 = root.addAnalysis target (rehydrated rt d) ∧
      replayParent rt root target (some d) =
        .analysis target (rehydrated rt d).modulePath := by
  rcases rehydrateAnalysis_cases rt root target (some d) with
    ⟨-, ⟨-, hnone⟩ | ⟨d', a, hd, hslot, -⟩⟩ | ⟨d', hd, -, hroot, hparent⟩
  · cases hnone
  · obtain rfl := Option.some.inj hd
    exact absurd hslot (h a)
  · obtain rfl := Option.some.inj hd
    exact ⟨hroot, hparent⟩

theorem slot_take_other {uuid : NodeUuid} {path path' : AnalysisPath} (huuid : root.Has uuid)
    (hpath : path' ≠ path) :
    (root.take (.analysis uuid path) news children).slot uuid path' = root.slot uuid path' := by
  obtain ⟨o, ho⟩ := Option.ne_none_iff_exists'.mp (getObservable_ne_none_iff.mpr huuid)
  unfold slot RootAnalysis.take
  rw [addChildren, getObservable_modify (f := Observable.addChildren path children) fun _ => rfl,
    getObservable_append ho _, ho, Option.map_some, Option.bind_some, Option.bind_some,
    Observable.addChildren, lookup_map_slot_other _ hpath]

variable {path : AnalysisPath}

theorem slot_addAnalysis_other (hpath : path ≠ a.modulePath) :
    (root.addAnalysis target a).slot target path = root.slot target path := by
  have huuid (o : Observable) : (o.setAnalysis a).uuid = o.uuid :=
    congrArg (·.uuid) (setAnalysis_identity o a)
  unfold slot RootAnalysis.addAnalysis
  rw [getObservable_modify huuid]
  cases root.getObservable target with
  | none => rfl
  | some o => exact lookup_setAnalysis_other o hpath

theorem slot_take (h : root.slot target path = some (some a)) :
    (root.take (.analysis target path) news children).slot target path =
      some (some (a.addChildren children)) := by
  obtain ⟨o, ho, hslot⟩ := Option.bind_eq_some_iff.mp h
  unfold slot RootAnalysis.take
  rw [addChildren, getObservable_modify (f := Observable.addChildren path children) fun _ => rfl,
    getObservable_append ho _, Option.map_some, Option.bind_some, Observable.addChildren,
    lookup_map_slot, hslot]
  rfl

theorem holds_of_installed (hnews : ∀ o ∈ news, o.uuid ≠ target)
    (h : root'.skeleton =
      ((root.addAnalysis target a).take (.analysis target a.modulePath) news children).skeleton) :
    ∀ o ∈ root'.observables, o.uuid = target → o.Holds (a.addChildren children) := by
  intro o ho huuid
  have hmem : (o.toObservableIdentity, o.analysis) ∈ root'.skeleton.2 :=
    mem_map.mpr ⟨o, ho, rfl⟩
  rw [h] at hmem
  obtain ⟨o', ho', heq⟩ := mem_map.mp hmem
  obtain ⟨hidentity, hanalysis⟩ := Prod.mk.inj heq
  have huuid' : o'.uuid = target := (congrArg (·.uuid) hidentity).trans huuid
  have hholds : o'.Holds (a.addChildren children) := by
    simp only [RootAnalysis.take, addChildren, addAnalysis, modify, mem_map,
      mem_append] at ho'
    obtain ⟨o₁, ⟨o₂, -, rfl⟩ | hnew, rfl⟩ := ho'
    · by_cases hsource : o₂.uuid = target
      · have hset : (o₂.setAnalysis a).uuid = target :=
          (congrArg (·.uuid) (setAnalysis_identity o₂ a)).trans hsource
        rw [if_pos hsource, if_pos hset]
        exact (o₂.holds_setAnalysis a).addChildren children
      · rw [if_neg hsource, if_neg hsource] at huuid'
        exact absurd huuid' hsource
    · rw [if_neg (hnews o₁ hnew)] at huuid'
      exact absurd huuid' (hnews o₁ hnew)
  exact ⟨hanalysis ▸ hholds.any, hanalysis ▸ hholds.all⟩

theorem reinstall_eq
    (h : ∀ o ∈ root.observables, o.uuid = target → o.Holds (a.addChildren children)) :
    (root.addAnalysis target a).addChildren (.analysis target a.modulePath) children = root := by
  have hset (o : Observable) : (o.setAnalysis a).uuid = o.uuid :=
    congrArg (·.uuid) (setAnalysis_identity o a)
  rw [addChildren, addAnalysis, modify_modify hset]
  have hkeep : ∀ o ∈ root.observables,
      (if o.uuid = target then (Observable.addChildren a.modulePath children ∘
        (·.setAnalysis a)) o else o) = id o := by
    intro o ho
    by_cases huuid : o.uuid = target
    · rw [if_pos huuid]
      exact (h o ho huuid).reinstall
    · rw [if_neg huuid]
      rfl
  simp only [modify]
  rw [map_congr_left hkeep, map_id]

theorem slot_addAnalysis (h : root.Has target) :
    (root.addAnalysis target a).slot target a.modulePath = some (some a) := by
  have huuid (o : Observable) : (o.setAnalysis a).uuid = o.uuid :=
    congrArg (·.uuid) (setAnalysis_identity o a)
  obtain ⟨o, ho⟩ := Option.ne_none_iff_exists'.mp (getObservable_ne_none_iff.mpr h)
  rw [slot, addAnalysis, getObservable_modify huuid, ho, Option.map_some, Option.bind_some,
    lookup_setAnalysis]

theorem childrenOf_of_slot (h : root.slot target path = some (some a)) :
    root.childrenOf (.analysis target path) = a.observables := by
  unfold slot at h
  simp only [childrenOf, h]

/-- A second replay adds its observables to the same analysis: the one that the first left, or one
that is installed once more, without children. -/
theorem rehydrateAnalysis_again {dict : Option AnalysisDict} (htarget : root.Has target)
    (hnews : ∀ o ∈ news, o.uuid ≠ target)
    (h : root'.skeleton = ((root.rehydrateAnalysis rt target dict).1.take
      (replayParent rt root target dict) news children).skeleton) :
    replayParent rt root' target dict = replayParent rt root target dict ∧
      ((root'.rehydrateAnalysis rt target dict).1 = root' ∨
        (root'.rehydrateAnalysis rt target dict).1.childrenOf
            (replayParent rt root target dict) = [] ∧
          (root.rehydrateAnalysis rt target dict).1.childrenOf
            (replayParent rt root target dict) = [] ∧
          (root'.rehydrateAnalysis rt target dict).1.addChildren
            (replayParent rt root target dict) children = root') := by
  have hslot := slot_of_skeleton h
  rcases rehydrateAnalysis_cases rt root target dict with
    ⟨hkept, ⟨hparent, rfl⟩ | ⟨d, a, rfl, hthere, hparent⟩⟩ | ⟨d, rfl, hthere, hroot, hparent⟩
  · exact ⟨rfl, .inl rfl⟩
  · rw [hkept, hparent] at hslot
    have hagain := (congrFun₂ hslot target d.modulePath).trans (slot_take hthere)
    obtain ⟨hroot', hparent'⟩ := rehydrateAnalysis_kept rt hagain
    exact ⟨hparent'.trans hparent.symm, .inl hroot'⟩
  · have hthereHas : (root.addAnalysis target (rehydrated rt d)).Has target := by
      obtain ⟨i, hi, huuid⟩ := htarget
      refine ⟨i, ?_, huuid⟩
      rw [addAnalysis, identities_modify fun o => setAnalysis_identity o _]
      exact hi
    have hinstalled := slot_addAnalysis (a := rehydrated rt d) htarget
    rw [hroot, hparent] at h hslot ⊢
    by_cases hpath : d.modulePath = (rehydrated rt d).modulePath
    · -- the analysis is in the slot that is looked at
      have hagain : root'.slot target d.modulePath =
          some (some ((rehydrated rt d).addChildren children)) := by
        rw [congrFun₂ hslot target d.modulePath, hpath]
        exact slot_take hinstalled
      obtain ⟨hroot', hparent'⟩ := rehydrateAnalysis_kept rt hagain
      exact ⟨hparent'.trans (by rw [hpath]), .inl hroot'⟩
    · -- the analysis of an instance is in another slot, and is installed again
      have hagain : ∀ a, root'.slot target d.modulePath ≠ some (some a) := by
        intro a
        rw [congrFun₂ hslot target d.modulePath, slot_take_other hthereHas hpath,
          slot_addAnalysis_other hpath]
        exact hthere a
      obtain ⟨hroot', hparent'⟩ := rehydrateAnalysis_installed rt hagain
      have htarget' : root'.Has target := by
        obtain ⟨i, hi, huuid⟩ := hthereHas
        refine ⟨i, ?_, huuid⟩
        rw [identities_of_skeleton h, identities_take]
        exact mem_append_left _ hi
      refine ⟨hparent', .inr ⟨?_, ?_, ?_⟩⟩
      · rw [hroot', childrenOf_of_slot (slot_addAnalysis htarget')]
        rfl
      · rw [childrenOf_of_slot hinstalled]
        rfl
      · rw [hroot']
        exact reinstall_eq (holds_of_installed hnews h)

end RootAnalysis

/-! ## §3 The second replay -/

section Twice

variable {rt : Runtime} {root : RootAnalysis} {target : NodeUuid} {delta : ModuleExecutionDelta}

theorem has_of_mem_relationshipWrites {uuidMap : UuidMap} {recorded source : NodeUuid}
    {rel : RelationshipDict} {write : EndpointWrite} (hmaps : root.Maps uuidMap)
    (h : write ∈ relationshipWrites rt root uuidMap recorded source rel) :
    root.Has write.target := by
  obtain ⟨reference, -, uuid, hresolve, rfl⟩ := mem_relationshipWrites.mp h
  exact hmaps.resolveTarget hresolve

theorem same_of_mem_outcomeChanges {grown : RootAnalysis} {placed : List (Option NodeUuid)}
    (htarget : grown.Has target)
    (hmaps : grown.Maps
      (enterAll [(delta.observableUuid, target)] (storedSpecs rt delta) placed)) :
    ∀ c ∈ outcomeChanges rt grown placed target delta, ∀ r ∈ c.2.relationships,
      grown.sameObservable rt r.target r.target := by
  intro c hc r hr
  have hself : grown.Maps [(delta.observableUuid, target)] := by
    intro entry hentry
    obtain rfl := mem_singleton.mp hentry
    exact htarget
  -- a relationship comes from an endpoint, whose target was resolved
  have hwrite : ∀ write : EndpointWrite, r ∈ write.change.2.relationships →
      r.target = write.target ∧ write.reference.rType ≠ none := by
    intro write hr
    unfold EndpointWrite.change at hr
    cases htype : write.reference.rType with
    | none => rw [htype] at hr; cases hr
    | some rType =>
      rw [htype] at hr
      rw [mem_singleton.mp hr]
      exact ⟨rfl, Option.some_ne_none _⟩
  rcases mem_append.mp hc with hmarks | hcarried
  · rw [(mem_allMarks hmarks).2] at hr
    cases hr
  · obtain ⟨planned, hplanned, rfl⟩ := mem_map.mp hcarried
    have hplanned := takeWhile_subset _ hplanned
    unfold outcomePlan at hplanned
    split at hplanned
    · rcases mem_append.mp hplanned with hspecs | hdiff
      · obtain ⟨spec, -, hspec⟩ := mem_flatMap.mp hspecs
        obtain ⟨write, hmem, rfl⟩ := mem_map.mp hspec
        obtain ⟨hr, htype⟩ := hwrite write hr
        rw [hr]
        obtain ⟨source, -, ⟨rel, -, hrel⟩ | hredirected⟩ := mem_specWrites.mp hmem
        · exact (has_of_mem_relationshipWrites hmaps hrel).sameObservable rt
        · obtain ⟨redirected, -, uuid, -, rfl⟩ := mem_redirectionWrites.mp hredirected
          exact absurd rfl htype
      · rcases mem_cons.mp hdiff with rfl | hdiff
        · cases hr
        · rcases mem_append.mp hdiff with hrels | hsettings
          · obtain ⟨write, hmem, rfl⟩ := mem_map.mp hrels
            obtain ⟨rel, -, hrel⟩ := mem_flatMap.mp hmem
            rw [(hwrite write hr).1]
            exact (has_of_mem_relationshipWrites hself hrel).sameObservable rt
          · rw [mem_singleton.mp hsettings] at hr
            cases hr
    · cases hplanned

theorem applyRootDiff_twice (rt : Runtime) (root : RootAnalysis) (diff : RootDiff) :
    (root.applyRootDiff rt diff).applyRootDiff rt diff = root.applyRootDiff rt diff := by
  simp only [RootAnalysis.applyRootDiff, foldl_addNew_twice]

theorem leftBehind_eq_of_map {result : Except RootAnalysis Replay} {ok : Prop} [Decidable ok]
    {left right : RootAnalysis}
    (h : result.map (·.root) = if ok then .ok right else .error left) :
    leftBehind result = (if ok then right else left) ∧ (result.toOption.isSome ↔ ok) := by
  by_cases hok : ok
  · rw [if_pos hok] at h ⊢
    cases result with
    | error => cases h
    | ok replay => exact ⟨Except.ok.inj h, by simp [Except.toOption, hok]⟩
  · rw [if_neg hok] at h ⊢
    cases result with
    | error => exact ⟨Except.error.inj h, by simp [Except.toOption, hok]⟩
    | ok => cases h

/-- A replay to a root that holds what a replay adds and changes: it places every observable where
it is, and makes no change. -/
theorem attemptDelta_of_done {root' : RootAnalysis} {news : List Observable}
    {children : List NodeUuid} (hroot : root.WellFormed) (htarget : root.Has target)
    (hstaged : Staged rt delta) (hroot' : root'.Sound)
    (htakes : RootAnalysis.Takes rt (root.rehydrateAnalysis rt target delta.analysis).1
      (replayParent rt root target delta.analysis) (placement rt root target delta).1 news children)
    (hskeleton : root'.skeleton = ((root.rehydrateAnalysis rt target delta.analysis).1.take
      (replayParent rt root target delta.analysis) news children).skeleton)
    (hdone : root'.change (root'.sameObservable rt)
      (outcomeChanges rt root' (placement rt root target delta).2 target delta) = root') :
    ∃ count, (attemptDelta rt root' target delta).map (·.root) =
      if AllStorable rt delta ∧ (outcomePlan rt root' (placement rt root target delta).2 target
          delta).all (·.valid) then
        .ok ((root'.draw count).applyRootDiff rt delta.rootDiff)
      else .error (root'.draw count) := by
  have hrehydrate := hroot.sound.rehydrateAnalysis rt target delta.analysis
  have hparent := hasParent_rehydrated htarget rt delta.analysis
  have hchildren := hroot.hasChildren_rehydrated htarget rt delta.analysis
  have htidy := hrehydrate.1.sound.tidy_shelf rt hchildren
  have hfresh := allFresh_placement rt hroot.sound target delta
  have hplaced := tidy_placement hroot.sound hchildren
  have hshelf : root'.shelf rt (replayParent rt root target delta.analysis) =
      (placement rt root target delta).1 := by
    rw [RootAnalysis.shelf_of_skeleton hskeleton, RootAnalysis.shelf_take hparent,
      ← htakes.entries, ← htakes.taken]
  have hnew := htakes.not_has hplaced
  have hnews : ∀ o ∈ news, o.uuid ≠ target := by
    rintro o ho rfl
    exact hnew o ho (hrehydrate.1.has htarget)
  have htarget' : root'.Has target := by
    obtain ⟨i, hi, huuid⟩ := hrehydrate.1.has htarget
    refine ⟨i, ?_, huuid⟩
    rw [RootAnalysis.identities_of_skeleton hskeleton, RootAnalysis.identities_take]
    exact mem_append_left _ hi
  have hrehydrate' := hroot'.rehydrateAnalysis rt target delta.analysis
  obtain ⟨hsameParent, hagain⟩ := RootAnalysis.rehydrateAnalysis_again htarget hnews hskeleton
  have hentries : ((root'.rehydrateAnalysis rt target delta.analysis).1.shelf rt
      (replayParent rt root target delta.analysis)).entries =
        (placement rt root target delta).1.entries := by
    rw [← hshelf]
    exact congrArg (List.map _) hrehydrate'.2
  -- the analysis has the children that it had before the first replay, or all that it got there
  have hbounds : ((root.rehydrateAnalysis rt target delta.analysis).1.shelf rt
        (replayParent rt root target delta.analysis)).taken <+:
          ((root'.rehydrateAnalysis rt target delta.analysis).1.shelf rt
            (replayParent rt root target delta.analysis)).taken ∧
      ((root'.rehydrateAnalysis rt target delta.analysis).1.shelf rt
        (replayParent rt root target delta.analysis)).taken <+:
          (placement rt root target delta).1.taken := by
    rcases hagain with hkept | ⟨hempty', hempty, -⟩
    · rw [hkept, hshelf]
      exact ⟨htakes.taken ▸ prefix_append _ _, prefix_rfl⟩
    · simp only [RootAnalysis.shelf, hempty', hempty]
      exact ⟨prefix_rfl, nil_prefix⟩
  have hplacement : placement rt root' target delta = placement rt root target delta := by
    have hask := Shelf.askAll_again (room_closing rt) htidy hfresh
      (requests_keys rt root'.number root'.draws root.number root.draws (storedSpecs rt delta))
      hentries hbounds.1 hbounds.2
    unfold placement
    rw [hsameParent]
    exact hask
  have hchildren' : (root'.rehydrateAnalysis rt target delta.analysis).1.HasChildren
      (replayParent rt root' target delta.analysis) := by
    rw [hsameParent]
    rcases hagain with hkept | ⟨hempty', -, -⟩
    · rw [hkept]
      exact RootAnalysis.hasChildren_of_tidy (hshelf ▸ hplaced)
    · intro uuid huuid
      rw [hempty'] at huuid
      cases huuid
  obtain ⟨news', children', count, htakes', -, -, htwice⟩ :=
    attemptDelta_eq hroot' htarget' hchildren' hstaged
  rw [hplacement, hsameParent] at htakes' htwice
  -- nothing is added, but the children of an analysis that was installed again
  have hnews' : news' = [] := by
    have hlength := congrArg List.length htakes'.entries
    rw [hentries, length_append, length_map] at hlength
    exact eq_nil_of_length_eq_zero (by omega)
  have hgrown : (root'.rehydrateAnalysis rt target delta.analysis).1.take
      (replayParent rt root target delta.analysis) news' children' = root' := by
    rw [hnews', RootAnalysis.take_nil]
    have htaken := htakes'.taken
    rcases hagain with hkept | ⟨hempty', hempty, hreinstalled⟩
    · rw [hkept, hshelf] at htaken
      rw [self_eq_append_right.mp htaken, RootAnalysis.addChildren_nil, hkept]
    · simp only [RootAnalysis.shelf, hempty', nil_append, htakes.taken, hempty] at htaken
      rw [← htaken]
      exact hreinstalled
  rw [hgrown, hdone] at htwice
  exact ⟨count, htwice⟩

end Twice

/-! ## §4 A replay with an instanced module -/

section Examples

theorem urlRoot_wellFormed : urlRoot.WellFormed := by
  refine ⟨urlRoot_sound, ?_, by decide⟩
  intro parent uuid huuid
  cases parent with
  | root =>
    obtain rfl := mem_singleton.mp huuid
    exact urlRoot_has
  | analysis source modulePath =>
    have hslot : (urlRoot.getObservable source).bind (·.analysis.lookup modulePath) = none := by
      rw [Option.bind_eq_none_iff]
      intro o ho
      have hmem := List.mem_of_find?_eq_some ho
      rw [mem_singleton.mp hmem]
      rfl
    simp only [RootAnalysis.childrenOf, hslot] at huuid
    cases huuid

def instancedDelta : ModuleExecutionDelta :=
  { foundUrlDelta relatingDiff with
    analysis := some
      { modulePath := ⟨"saq.modules.url:UrlAnalysis", some "external"⟩
        summary := some "1 url"
        summaryDetails := none
        completed := some true
        delayed := none
        externalDetailsPath := none
        tags := none
        details := none } }

end Examples

end Ace3.Analysis
