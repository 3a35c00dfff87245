import Ace3.Export.Targets
import Mathlib.Tactic.SplitIfs

/-!
# Convergence of the Exports

After every run that has not failed, is the published content what `publish` would produce for
the current detections?
-/

namespace Ace3.Export

open List Function
open Lib.Runs

variable {φ : Type}

/-! ## §1 The redis cache -/

namespace RedisCache

variable {digest : List ExportEntry → φ}

def filled (digest : List ExportEntry → φ) (entries : List ExportEntry) : RedisDb φ :=
  ((fill digest entries).foldl apply ⟨fun _ => none, fun _ => none⟩).scratch

theorem live_foldl_apply {commands : List (Command φ)} (h : .swapdb ∉ commands)
    (cache : RedisCache φ) : (commands.foldl apply cache).live = cache.live := by
  induction commands generalizing cache with
  | nil => rfl
  | cons command commands ih =>
    simp only [mem_cons, not_or] at h
    rw [foldl_cons, ih h.2]
    cases command with
    | flushdb => rfl
    | set key value => rfl
    | swapdb => exact absurd rfl h.1

theorem scratch_foldl_apply {commands : List (Command φ)} (h : .swapdb ∉ commands)
    {cache cache' : RedisCache φ} (hscratch : cache.scratch = cache'.scratch) :
    (commands.foldl apply cache).scratch = (commands.foldl apply cache').scratch := by
  induction commands generalizing cache cache' with
  | nil => exact hscratch
  | cons command commands ih =>
    simp only [mem_cons, not_or] at h
    simp only [foldl_cons]
    apply ih h.2
    cases command with
    | flushdb => rfl
    | set key value => simp only [apply, hscratch]
    | swapdb => exact absurd rfl h.1

theorem swapdb_not_mem_fill (digest : List ExportEntry → φ) (entries : List ExportEntry) :
    .swapdb ∉ .flushdb :: fill digest entries := by
  simp [fill]

theorem live_publish_none (entries : List ExportEntry) (cache : RedisCache φ) :
    (publish digest none entries cache).1.live = filled digest entries := by
  simp only [publish, commands, foldl_append, foldl_cons, foldl_nil, apply]
  exact scratch_foldl_apply (fun h => swapdb_not_mem_fill digest entries (.tail _ h)) rfl

theorem live_publish_some (executed : Nat) (entries : List ExportEntry) (cache : RedisCache φ) :
    (publish digest (some executed) entries cache).1.live = cache.live ∨
      (publish digest (some executed) entries cache).1.live = filled digest entries := by
  by_cases hexecuted : executed ≤ (.flushdb :: fill digest entries).length
  · left
    simp only [publish, commands, take_append_of_le_length hexecuted]
    exact live_foldl_apply
      (fun h => swapdb_not_mem_fill digest entries (mem_of_mem_take h)) cache
  · right
    have hall : (commands digest entries).length ≤ executed := by
      simp only [commands, length_append, length_cons, length_nil] at hexecuted ⊢
      omega
    simp only [publish, take_of_length_le hall]
    exact live_publish_none entries cache

theorem filled_fingerprintKey (digest : List ExportEntry → φ) (entries : List ExportEntry) :
    filled digest entries fingerprintKey = some (.fingerprint (digest entries)) := by
  simp [filled, fill, apply]

theorem filled_of_ne {key : String} (hkey : key ≠ fingerprintKey) (entries : List ExportEntry) :
    filled digest entries key =
      (entries.reverse.find? fun entry => entry.type ++ ":" ++ entry.value = key).map
        fun entry => .id entry.id := by
  have hentries : ∀ (entries : List ExportEntry) (cache : RedisCache φ),
      ((entries.map fun entry =>
        Command.set (φ := φ) (entry.type ++ ":" ++ entry.value) (.id entry.id)).foldl apply
          cache).scratch key =
        ((entries.reverse.find? fun entry => entry.type ++ ":" ++ entry.value = key).map
          fun entry => .id entry.id).or (cache.scratch key) := by
    intro entries
    induction entries with
    | nil => simp
    | cons entry entries ih =>
      intro cache
      rw [map_cons, foldl_cons, ih, reverse_cons, List.find?_append]
      -- a later entry with the key wins over this one
      cases entries.reverse.find? fun entry => entry.type ++ ":" ++ entry.value = key with
      | some later => rfl
      | none =>
        by_cases hentry : entry.type ++ ":" ++ entry.value = key
        · simp [apply, hentry]
        · simp [apply, hentry, update_of_ne (Ne.symm hentry)]
  simp only [filled, fill, foldl_append, foldl_cons, foldl_nil, apply,
    update_of_ne hkey]
  exact (hentries entries _).trans (Option.or_none ..)

def Consistent (digest : List ExportEntry → φ) (cache : RedisCache φ) : Prop :=
  ∀ fingerprint, cache.getLastFingerprint = some fingerprint →
    ∃ entries, fingerprint = digest entries ∧ cache.live = filled digest entries

variable {cache : RedisCache φ}

theorem consistent_of_empty (h : cache.live = fun _ => none) :
    cache.Consistent digest := by
  intro fingerprint hfingerprint
  simp [getLastFingerprint, h] at hfingerprint

theorem consistent_of_filled {entries : List ExportEntry} (h : cache.live = filled digest entries) :
    cache.Consistent digest := by
  intro fingerprint hfingerprint
  simp only [getLastFingerprint, h, filled_fingerprintKey, Option.some.injEq] at hfingerprint
  exact ⟨entries, hfingerprint.symm, h⟩

theorem Consistent.of_live_eq {cache cache' : RedisCache φ} (hinv : cache.Consistent digest)
    (hlive : cache'.live = cache.live) : cache'.Consistent digest := by
  intro fingerprint hfingerprint
  simp only [getLastFingerprint, hlive] at hfingerprint ⊢
  exact hinv fingerprint hfingerprint

theorem Consistent.publish (hinv : cache.Consistent digest) (fault : Option Nat)
    (entries : List ExportEntry) :
    (publish digest fault entries cache).1.Consistent digest := by
  cases fault with
  | none => exact consistent_of_filled (live_publish_none entries cache)
  | some executed =>
    rcases live_publish_some executed entries cache with hlive | hlive
    · exact hinv.of_live_eq hlive
    · exact consistent_of_filled hlive

end RedisCache

section Redis

variable [DecidableEq φ] {digest : List ExportEntry → φ}

theorem redisExport_consistent {cache : RedisCache φ} (hinv : cache.Consistent digest)
    (run : ExportRun Unit (Option Nat)) :
    ((redisExport digest).runExport digest run cache).1.Consistent digest := by
  rcases (redisExport digest).runExport_cases digest run cache with
    ⟨-, heq⟩ | ⟨-, -, heq⟩ | ⟨-, -, heq⟩ | ⟨-, -, heq⟩
  · exact heq ▸ hinv
  · exact heq ▸ hinv
  · exact heq ▸ hinv.publish run.faults _
  · exact heq ▸ hinv.publish run.faults _

theorem redisExport_upToDate (hdigest : Injective digest) {cache : RedisCache φ}
    (hinv : cache.Consistent digest) (run : ExportRun Unit (Option Nat)) :
    (redisExport digest).Converges digest run cache := by
  have hpublished : ∀ {entries cache}, cache.live = RedisCache.filled digest entries →
      (redisExport digest).UpToDate run.env entries cache := by
    intro entries cache hlive
    exact hlive.trans (RedisCache.live_publish_none entries cache).symm
  intro hresult
  rcases (redisExport digest).runExport_cases digest run cache with
    ⟨-, heq⟩ | ⟨-, hsame, heq⟩ | ⟨-, -, heq⟩ | ⟨-, hraised, heq⟩
  · simp [heq] at hresult
  · obtain ⟨entries, hfingerprint, hlive⟩ := hinv _ hsame
    exact heq ▸ hpublished (hdigest hfingerprint ▸ hlive)
  · simp [heq] at hresult
  · cases hfaults : run.faults with
    | none =>
      rw [heq, hfaults]
      exact hpublished (RedisCache.live_publish_none _ cache)
    | some executed =>
      rw [hfaults] at hraised
      exact absurd rfl hraised

end Redis

/-! ## §2 The Splunk KV store -/

namespace SplunkKVStore

/-- What the collection has under a key once a list is published: the last document with it. -/
def render (lower : String → String) (entries : List ExportEntry) (key : String) :
    Option Document :=
  (buildDocuments lower entries).reverse.find? (·.key = key)

theorem lookup_delete (collection : List Document) (deleted key : String) :
    lookup (apply collection (.delete deleted)) key =
      if key = deleted then none else lookup collection key := by
  simp only [lookup, apply, List.find?_filter]
  split_ifs with hkey
  · subst hkey
    simp
  · congr 1
    funext document
    by_cases h : document.key = key <;> simp [h, hkey]

theorem lookup_save (collection : List Document) (document : Document) (key : String) :
    lookup (apply collection (.save document)) key =
      if document.key = key then some document else lookup collection key := by
  have happend : lookup (apply collection (.save document)) key =
      (lookup (apply collection (.delete document.key)) key).or (lookup [document] key) := by
    simp only [lookup, apply, List.find?_append]
  rw [happend, lookup_delete]
  by_cases hkey : document.key = key
  · subst hkey
    simp [lookup]
  · simp [lookup, hkey, Ne.symm hkey]

theorem lookup_deletes (keys : List String) (collection : List Document) (key : String) :
    lookup ((keys.map .delete).foldl apply collection) key =
      if key ∈ keys then none else lookup collection key := by
  induction keys generalizing collection with
  | nil => simp
  | cons deleted keys ih =>
    simp only [map_cons, foldl_cons, ih, lookup_delete, mem_cons]
    by_cases hkey : key = deleted <;> simp [hkey]

theorem lookup_saves (documents collection : List Document) (key : String) :
    lookup ((documents.map .save).foldl apply collection) key =
      (documents.reverse.find? (·.key = key)).or (lookup collection key) := by
  induction documents generalizing collection with
  | nil => simp
  | cons document documents ih =>
    simp only [map_cons, foldl_cons, ih, lookup_save, reverse_cons,
      List.find?_append, Option.or_assoc]
    by_cases hkey : document.key = key <;> simp [hkey]

theorem flatten_chunked {α : Type} {size : Int} (hsize : 0 ≤ size) {items : List α}
    {chunks : List (List α)} (h : chunked size items = some chunks) : chunks.flatten = items := by
  unfold chunked at h
  split_ifs at h with hzero
  · omega
  · obtain rfl := Option.some.inj h
    exact Lib.flatten_slices (by omega) _ items (Nat.le_refl _)

variable {chunks : List (List Operation)}

theorem flatten_chunkedIfAny {size : Int} (hsize : 0 ≤ size) {operations : List Operation}
    (h : chunkedIfAny size operations = some chunks) :
    chunks.flatten = operations := by
  unfold chunkedIfAny at h
  split_ifs at h with hoperations
  · simp [← Option.some.inj h, hoperations]
  · exact flatten_chunked hsize h

theorem chunkedIfAny_of_neg {size : Int} (hsize : size < 0) (operations : List Operation) :
    chunkedIfAny size operations = some [] := by
  have hchunked : chunked size operations = some [] := by
    rw [chunked, if_neg (Int.ne_of_lt hsize), if_pos hsize]
  simp [chunkedIfAny, hchunked]

variable {lower : String → String} {config : SplunkKVStoreExportConfig}

theorem flatten_requests (hsize : 0 ≤ config.maxExport) {documents collection : List Document}
    (h : requests config documents collection = some chunks) :
    chunks.flatten = ((staleKeys documents collection).insertionSort (· ≤ ·)).map .delete ++
      documents.map .save := by
  simp only [requests, bind, pure, Option.bind_eq_some_iff, Option.some.injEq] at h
  obtain ⟨deletes, hdeletes, saves, hsaves, rfl⟩ := h
  rw [flatten_append, flatten_chunkedIfAny hsize hdeletes, flatten_chunkedIfAny hsize hsaves]

theorem requests_of_neg (hsize : config.maxExport < 0) (documents collection : List Document) :
    requests config documents collection = some [] := by
  simp [requests, chunkedIfAny_of_neg hsize]

theorem lookup_requests (hsize : 0 ≤ config.maxExport) {entries : List ExportEntry}
    {collection : List Document}
    (h : requests config (buildDocuments lower entries) collection = some chunks) :
    lookup (chunks.flatten.foldl apply collection) = render lower entries := by
  funext key
  rw [flatten_requests hsize h, foldl_append, lookup_saves, lookup_deletes, render]
  cases hrender : (buildDocuments lower entries).reverse.find? (·.key = key) with
  | some document => rfl
  | none =>
    -- no document has the key, so it is stale if the collection has it
    simp only [List.find?_eq_none, mem_reverse, decide_eq_true_eq] at hrender
    simp only [Option.none_or, mem_insertionSort, staleKeys, mem_filter, mem_dedup,
      mem_map, decide_eq_true_eq]
    split_ifs with hstale
    · rfl
    · simp only [lookup, List.find?_eq_none, decide_eq_true_eq]
      intro document hdocument hkey
      exact hstale ⟨⟨document, hdocument, hkey⟩, fun ⟨document', h', hkey'⟩ =>
        hrender document' h' hkey'⟩

theorem lookup_publish (hsize : 0 ≤ config.maxExport) {fault : Option Nat}
    {entries : List ExportEntry} {collection : List Document}
    (h : (publish lower config fault entries collection).2 = .returned) :
    lookup (publish lower config fault entries collection).1 = render lower entries := by
  unfold publish at h ⊢
  split_ifs at h ⊢ with hcollection
  cases hrequests : requests config (buildDocuments lower entries) collection with
  | none => simp [hrequests] at h
  | some chunks =>
    simp only [hrequests] at h ⊢
    cases fault with
    | none => exact lookup_requests hsize hrequests
    | some reached => simp at h

theorem publish_none (lower : String → String) (config : SplunkKVStoreExportConfig)
    (entries : List ExportEntry) (collection : List Document) :
    (publish lower config none entries collection).2 = .returned ∨
      (publish lower config none entries collection).1 = collection := by
  unfold publish
  split_ifs
  · exact .inr rfl
  · cases requests config (buildDocuments lower entries) collection with
    | none => exact .inr rfl
    | some chunks => exact .inl rfl

theorem publish_of_neg (hsize : config.maxExport < 0) (fault : Option Nat)
    (entries : List ExportEntry) (collection : List Document) :
    (publish lower config fault entries collection).1 = collection := by
  unfold publish
  split_ifs
  · rfl
  · rw [requests_of_neg hsize]
    cases fault <;> simp

end SplunkKVStore

section Splunk

variable {ancestors : String → List String} {lower : String → String}
  {config : SplunkKVStoreExportConfig}

theorem WithState.system_writeFingerprint {σ : Type} (outcome : RecordOutcome) (fingerprint : φ)
    (s : WithState σ φ) : (s.writeFingerprint outcome fingerprint).system = s.system := by
  cases outcome <;> rfl

theorem splunkExport_recorded (hsize : 0 ≤ config.maxExport) :
    (splunkExport (φ := φ) ancestors lower config).Recorded
      (fun _ => SplunkKVStore.render lower) where
  published _ fault entries s h := SplunkKVStore.lookup_publish hsize h
  faultless _ entries s := by
    rcases SplunkKVStore.publish_none lower config entries s.system with h | h
    · exact mem_cons.mpr (.inl (SplunkKVStore.lookup_publish hsize h))
    · exact mem_cons.mpr (.inr (mem_singleton.mpr (congrArg SplunkKVStore.lookup h)))
  recorded _ _ := rfl
  content outcome fingerprint s :=
    congrArg SplunkKVStore.lookup (s.system_writeFingerprint outcome fingerprint)

theorem splunkExport_upToDate_of_neg (hsize : config.maxExport < 0) (entries : List ExportEntry)
    (s : WithState (List Document) φ) :
    (splunkExport ancestors lower config).UpToDate () entries s :=
  congrArg SplunkKVStore.lookup (SplunkKVStore.publish_of_neg hsize none entries s.system).symm

end Splunk

/-! ## §3 The yara rules -/

namespace Yara

def render (env : YaraEnv) (entries : List ExportEntry) : RuleFiles := fun type =>
  if type ∈ types entries then rule env type (entries.filter (·.type = type)) else none

/-- A loop over distinct types that goes through has exported the types with a rule, has written
their rules and has left the other files. -/
theorem exportTypes_spec (env : YaraEnv) (groups : List (String × List ExportEntry))
    (fault : Option (Nat × Option String)) (files : RuleFiles)
    (hnodup : (groups.map (·.1)).Nodup) (h : (exportTypes env groups fault files).2.2 = true) :
    (exportTypes env groups fault files).2.1 =
        (groups.filter fun group => (rule env group.1 group.2).isSome).map (·.1) ∧
      ∀ type, (exportTypes env groups fault files).1 type =
        ((groups.lookup type).bind (rule env type)).or (files type) := by
  have hlookup : ∀ {name : String} {groups : List (String × List ExportEntry)},
      name ∉ groups.map (·.1) → groups.lookup name = none := by
    intro name groups hname
    refine lookup_eq_none_iff.mpr fun group hgroup => bne_iff_ne.mpr ?_
    rintro rfl
    exact hname (mem_map_of_mem hgroup)
  fun_induction exportTypes env groups fault files with
  | case1 => simp
  | case2 => simp at h
  | case3 name entries groups fault files hfault fault' hrule ih =>
    obtain ⟨hname, hnodup⟩ := nodup_cons.mp hnodup
    obtain ⟨hexported, hfiles⟩ := ih hnodup h
    refine ⟨by simp [hexported, hrule], fun type => ?_⟩
    rw [hfiles, lookup_cons]
    by_cases htype : type = name
    · subst htype
      simp [hrule, hlookup hname]
    · simp [beq_eq_false_iff_ne.mpr htype]
  | case4 name entries groups fault files hfault fault' rule hrule files' exported finished heq ih =>
    obtain ⟨hname, hnodup⟩ := nodup_cons.mp hnodup
    rw [heq] at ih
    obtain ⟨hexported, hfiles⟩ := ih hnodup h
    refine ⟨by simp [show exported = _ from hexported, hrule],
      fun type => (hfiles type).trans ?_⟩
    rw [lookup_cons]
    by_cases htype : type = name
    · subst htype
      simp [hrule, hlookup hname]
    · simp [beq_eq_false_iff_ne.mpr htype, update_of_ne htype]

theorem exportTypes_none (env : YaraEnv) (groups : List (String × List ExportEntry))
    (files : RuleFiles) : (exportTypes env groups none files).2.2 = true := by
  induction groups generalizing files with
  | nil => rfl
  | cons group groups ih =>
    obtain ⟨name, entries⟩ := group
    unfold exportTypes
    cases rule env name entries with
    | none => exact ih files
    | some rule => exact ih (Function.update files name (some rule))

theorem lookup_entriesByType (entries : List ExportEntry) (type : String) :
    (entriesByType entries).lookup type =
      if type ∈ types entries then some (entries.filter (·.type = type)) else none := by
  unfold entriesByType
  induction types entries with
  | nil => simp
  | cons name names ih =>
    rw [map_cons, lookup_cons, ih]
    by_cases htype : type = name
    · subst htype
      simp
    · simp [htype, beq_eq_false_iff_ne.mpr htype]

theorem nodup_entriesByType (entries : List ExportEntry) :
    ((entriesByType entries).map (·.1)).Nodup := by
  have hnames : (entriesByType entries).map (·.1) = types entries := by
    simp [entriesByType, comp_def]
  rw [hnames]
  exact nodup_dedup _

/-- The loop of `publish` leaves the rules of the list, beside the files of types without one. -/
theorem exportTypes_entriesByType {env : YaraEnv} {entries : List ExportEntry}
    {fault : Option (Nat × Option String)} {files files' : RuleFiles} {exported : List String}
    (h : exportTypes env (entriesByType entries) fault files = (files', exported, true))
    (type : String) :
    (type ∈ exported ↔ (render env entries type).isSome) ∧
      files' type = (render env entries type).or (files type) := by
  obtain ⟨hexported, hfiles⟩ := exportTypes_spec env (entriesByType entries) fault files
    (nodup_entriesByType entries) (by rw [h])
  rw [h] at hexported hfiles
  have hrender : ((entriesByType entries).lookup type).bind (rule env type) =
      render env entries type := by
    rw [lookup_entriesByType, render]
    split_ifs <;> rfl
  refine ⟨?_, hrender ▸ hfiles type⟩
  simp only [show exported = _ from hexported, entriesByType, mem_map, mem_filter,
    render]
  constructor
  · rintro ⟨_, ⟨⟨type, htype, rfl⟩, hrule⟩, rfl⟩
    simpa [htype] using hrule
  · intro hrule
    split_ifs at hrule with htype
    · exact ⟨_, ⟨⟨type, htype, rfl⟩, hrule⟩, rfl⟩
    · simp at hrule

/-- A call of `publish` that returns without having logged an error has published the list. -/
theorem publish_returned {env : YaraEnv} {faults : YaraFaults} {entries : List ExportEntry}
    {files : RuleFiles} (h : (publish env faults entries files).2 = .returned) :
    (publish env faults entries files).1 = render env entries := by
  unfold publish at h ⊢
  split_ifs at h ⊢ with hdirectory
  rcases hloop : exportTypes env (entriesByType entries) faults.writeFails files with
    ⟨files', exported, _ | _⟩
  · simp [hloop] at h
  · simp only [hloop] at h ⊢
    have hlogs : pruneLogsError faults exported files' = false := by
      by_contra hlogs
      simp [hlogs] at h
    simp only [pruneLogsError, Bool.or_eq_false_iff, any_eq_false, decide_eq_true_eq,
      not_and, Option.not_isSome_iff_eq_none] at hlogs
    obtain ⟨hlist, hremove⟩ := hlogs
    funext type
    obtain ⟨hexported, hfiles⟩ := exportTypes_entriesByType hloop type
    by_cases htype : type ∈ exported
    · obtain ⟨rule, hrule⟩ := Option.isSome_iff_exists.mp (hexported.mp htype)
      simp [prune, htype, hfiles, hrule]
    · -- the file is removed, or it could not be removed and there is none
      have hnone : render env entries type = none :=
        Option.not_isSome_iff_eq_none.mp fun hsome => htype (hexported.mpr hsome)
      simp only [prune, htype, hlist, hnone, Bool.false_eq_true, false_or]
      split_ifs with hfails
      · exact hremove type hfails htype
      · rfl

theorem publish_faultless (env : YaraEnv) (entries : List ExportEntry) (files : RuleFiles) :
    (publish env ⟨false, none, false, []⟩ entries files).2 = .returned := by
  have hloop := exportTypes_none env (entriesByType entries) files
  rcases hfiles : exportTypes env (entriesByType entries) none files with ⟨files', exported, _ | _⟩
  · simp [hfiles] at hloop
  · simp [publish, hfiles, pruneLogsError]

end Yara

theorem yaraExport_recorded {ancestors : String → List String} :
    (yaraExport (φ := φ) ancestors).Recorded Yara.render where
  published _ _ _ _ h := Yara.publish_returned h
  faultless env entries s :=
    mem_cons.mpr (.inl (Yara.publish_returned (Yara.publish_faultless env entries s.system)))
  recorded _ _ := rfl
  content outcome fingerprint s := s.system_writeFingerprint outcome fingerprint

/-! ## §4 Every target -/

section Targets

variable [DecidableEq φ]

/-- In every history, each run of the redis export that has not failed leaves the cache up to
date; each run of the Splunk and of the yara export does, if the runs trust their record
rightly. -/
theorem exports_converge (digest : List ExportEntry → φ) (hdigest : Injective digest)
    (ancestors : String → List String) (lower : String → String)
    (config : SplunkKVStoreExportConfig) :
    (∀ (cache : RedisCache φ) (runs : List (ExportRun Unit (Option Nat))),
      cache.live = (fun _ => none) →
        Along ((redisExport digest).step digest)
          (fun h run => (redisExport digest).Converges digest run h.state) ⟨cache, none⟩ runs) ∧
    (∀ (s : WithState (List Document) φ) (runs : List (ExportRun Unit (Option Nat))),
      Along ((splunkExport ancestors lower config).step digest)
          ((splunkExport ancestors lower config).Trusts digest) ⟨s, none⟩ runs →
        Along ((splunkExport ancestors lower config).step digest)
          (fun h run => (splunkExport ancestors lower config).Converges digest run h.state)
          ⟨s, none⟩ runs) ∧
    (∀ (s : WithState RuleFiles φ) (runs : List (ExportRun YaraEnv YaraFaults)),
      Along ((yaraExport ancestors).step digest) ((yaraExport ancestors).Trusts digest)
          ⟨s, none⟩ runs →
        Along ((yaraExport ancestors).step digest)
          (fun h run => (yaraExport ancestors).Converges digest run h.state) ⟨s, none⟩ runs) := by
  refine ⟨fun cache runs hlive => ?_, fun s runs htrusts => ?_, fun s runs htrusts => ?_⟩
  · exact along_of_invariant (fun h => h.state.Consistent digest)
      (fun h run hinv => redisExport_consistent hinv run)
      (fun h run hinv => redisExport_upToDate hdigest hinv run)
      (RedisCache.consistent_of_empty hlive) runs
  · by_cases hsize : 0 ≤ config.maxExport
    · exact (splunkExport_recorded hsize).run_converges hdigest s runs htrusts
    · exact along_of_invariant (fun _ => True) (fun _ _ _ => trivial)
        (fun _ _ _ _ => splunkExport_upToDate_of_neg (Int.not_le.mp hsize) _ _) trivial runs
  · exact yaraExport_recorded.run_converges hdigest s runs htrusts

/-- A Splunk collection on which one run publishes a detection and the next one skips. -/
theorem exports_converge_splunk :
    Along ((splunkExport (fun _ => []) id ⟨"detections", ["fqdn"], 500⟩).step id)
      (fun h run => (splunkExport (fun _ => []) id ⟨"detections", ["fqdn"], 500⟩).Converges id run
        h.state)
      ⟨⟨[], none⟩, none⟩
      [⟨(), [("fqdn", [(1, "evil.com")])], false, false, none, .written⟩,
        ⟨(), [("fqdn", [(1, "evil.com")])], false, false, none, .written⟩] :=
  (exports_converge id injective_id (fun _ => []) id ⟨"detections", ["fqdn"], 500⟩).2.1
    ⟨[], none⟩ _ (by unfold ObservableExport.Trusts; decide)

/-- A detection is published, then a run with another one fails after its delete, and then the
first detection is back: the target skips it although its document is gone. -/
theorem returnedDetections_not_converge :
    ¬ ∀ (config : SplunkKVStoreExportConfig)
        (s : WithState (List Document) (List ExportEntry))
        (runs : List (ExportRun Unit (Option Nat))),
      Along ((splunkExport (fun _ => []) id config).step id)
        (fun h run => (splunkExport (fun _ => []) id config).Converges id run h.state)
        ⟨s, none⟩ runs := by
  intro hclaim
  let first : ExportRun Unit (Option Nat) :=
    ⟨(), [("fqdn", [(1, "evil.com")])], false, false, none, .written⟩
  let failing : ExportRun Unit (Option Nat) :=
    ⟨(), [("fqdn", [(2, "bad.com")])], false, false, some 1, .written⟩
  have hconverges := (hclaim ⟨"detections", ["fqdn"], 500⟩ ⟨[], none⟩ [first, failing, first]).at
    [first, failing]
  have hlookup := congrFun (hconverges (by decide)) "1"
  revert hlookup
  decide

end Targets

end Ace3.Export
