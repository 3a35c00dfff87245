import Ace3.Collectors.RemoteNodeGroup
import Ace3.Lib.Runs

/-!
# Which Node a Work Item Is Sent To

A node takes a mode that it lists; with `any_mode` it takes every mode that it does not exclude.
`RemoteNodeGroup.execute` asks for all queued modes at once, over rows that pair a supported with an
excluded mode, and puts every node with `any_mode` that some row let pass before every item. The
query of `find_transfer_target` in `saq/engine/node_manager/drain.py` asks for one mode and joins
only the exclusion of that mode.
-/

namespace Ace3.Collectors

open List
open Lib Lib.Sql Lib.Runs

/-! ## §1 What a node takes -/

def NodeTables.Takes (tables : NodeTables) (node : Node) (mode : String) : Prop :=
  tables.Lists node mode ∨ node.anyMode ∧ ¬ tables.Excludes node mode

/-- The node is fresh and accepting, the group may send to it, and it takes the mode. -/
structure Eligible (limits : NodeLimits) (query : NodeQuery) (mode : String) (node : Node) :
    Prop where
  mem : node ∈ query.tables.nodes
  candidate : NodeTables.isCandidate limits query.now node
  takes : query.tables.Takes node mode

/-- A node is to be preferred to another, or as good: it is running and the other is not, or neither
is ahead there and it has no more work. -/
def LoadedAtMost (tables : NodeTables) (a b : Node) : Prop :=
  a.status = .running ∧ b.status ≠ .running ∨
    (a.status = .running ↔ b.status = .running) ∧
      tables.workload.count a.id ≤ tables.workload.count b.id

structure BestNode (limits : NodeLimits) (query : NodeQuery) (mode : String) (node : Node) :
    Prop where
  eligible : Eligible limits query mode node
  best : ∀ other, Eligible limits query mode other → LoadedAtMost query.tables node other

/-- Each fresh and accepting node with `any_mode` takes all queued modes, or excludes all of them
(and lists none) and nothing else. -/
def NodeQuery.AllOrNone (limits : NodeLimits) (query : NodeQuery) : Prop :=
  ∀ node ∈ query.tables.nodes, NodeTables.isCandidate limits query.now node → node.anyMode →
    (∀ mode ∈ query.modes, query.tables.Takes node mode) ∨
      (∀ mode ∈ query.modes, query.tables.Excludes node mode ∧ ¬ query.tables.Lists node mode) ∧
        ∀ mode, query.tables.Excludes node mode → mode ∈ query.modes

def NodeQuery.nodes (limits : NodeLimits) (query : NodeQuery) : List RemoteNode :=
  query.tables.nodeStatus limits query.now query.modes

variable {limits : NodeLimits} {query : NodeQuery} {mode : String} {node : Node}
  {remote : RemoteNode}

/-! ## §2 Nodes with any_mode -/

theorem NodeQuery.of_mem_nodes (h : remote ∈ query.nodes limits) :
    remote.node ∈ query.tables.nodes ∧ NodeTables.isCandidate limits query.now remote.node ∧
      NodeTables.IsColumn (query.tables.Lists remote.node) remote.analysisMode ∧
      remote.workloadCount = query.tables.workload.count remote.node.id ∧
      ∃ excluded, NodeTables.IsColumn (query.tables.Excludes remote.node) excluded ∧
        NodeTables.acceptsModes query.modes ⟨remote.node, remote.analysisMode, excluded, false⟩ =
          some true := by
  obtain ⟨⟨excluded, hmem, hwhere⟩, hcount⟩ := NodeTables.mem_nodeStatus.mp h
  obtain ⟨hnode, hcolumn, hexcluded, -⟩ := NodeTables.mem_withExcluded.mp hmem
  obtain ⟨hcandidate, haccepts⟩ := Truth.and_eq_true_iff.mp hwhere
  exact ⟨hnode, Option.some.inj hcandidate, hcolumn, hcount, excluded, hexcluded, haccepts⟩

/-- A fresh and accepting node has a row, for each of its modes that some excluded mode lets pass. -/
theorem NodeQuery.mem_nodes (hnode : node ∈ query.tables.nodes)
    (hcandidate : NodeTables.isCandidate limits query.now node) {column excluded : Option String}
    (hcolumn : NodeTables.IsColumn (query.tables.Lists node) column)
    (hexcluded : NodeTables.IsColumn (query.tables.Excludes node) excluded)
    (haccepts : NodeTables.acceptsModes query.modes ⟨node, column, excluded, false⟩ = some true) :
    ⟨node, column, query.tables.workload.count node.id⟩ ∈ query.nodes limits := by
  apply NodeTables.mem_nodeStatus.mpr
  refine ⟨⟨excluded, NodeTables.mem_withExcluded.mpr ⟨hnode, hcolumn, hexcluded, rfl⟩, ?_⟩, rfl⟩
  exact Truth.and_eq_true_iff.mpr ⟨congrArg some hcandidate, haccepts⟩

theorem acceptsModes_iff {modes : List String} {column excluded : Option String} :
    NodeTables.acceptsModes modes ⟨node, column, excluded, false⟩ = some true ↔
      (node.anyMode ∧ ∀ mode ∈ excluded, mode ∉ modes) ∨ ∃ mode ∈ column, mode ∈ modes := by
  simp only [NodeTables.acceptsModes, Truth.or_eq_true_iff, Truth.and_eq_true_iff,
    Truth.not_eq_true_iff, holds_eq_true_iff, decide_eq_true_eq, Option.some.injEq, Option.mem_def]
  apply or_congr _ Iff.rfl
  apply and_congr_right
  intro _
  cases excluded with
  | none => simp [isNull]
  | some mode => simp [isNull, holds]

theorem exists_isColumn (values : String → Prop) : ∃ column, NodeTables.IsColumn values column := by
  by_cases hsome : ∃ mode, values mode
  · obtain ⟨mode, hmode⟩ := hsome
    exact ⟨some mode, hmode⟩
  · exact ⟨none, fun mode hmode => hsome ⟨mode, hmode⟩⟩

theorem takes_of_anyModeNodes (h : query.AllOrNone limits)
    (hremote : remote ∈ anyModeNodes (query.nodes limits)) :
    ∀ mode ∈ query.modes, query.tables.Takes remote.node mode := by
  intro mode hmode
  obtain ⟨hrow, hany⟩ := mem_filter.mp hremote
  obtain ⟨hnode, hcandidate, hcolumn, -, excluded, hexcluded, haccepts⟩ := NodeQuery.of_mem_nodes hrow
  rcases h _ hnode hcandidate hany with hall | ⟨hnone, honly⟩
  · exact hall mode hmode
  -- a node that excludes the queue and nothing else has no row
  exfalso
  rcases acceptsModes_iff.mp haccepts with ⟨-, hfree⟩ | ⟨listed, hlisted, hqueued⟩
  · cases excluded with
    | some other => exact hfree other rfl (honly other hexcluded)
    | none => exact hexcluded mode (hnone mode hmode).1
  · rw [Option.mem_def.mp hlisted] at hcolumn
    exact (hnone listed hqueued).2 hcolumn

theorem mem_anyModeNodes (h : query.AllOrNone limits) (hmode : mode ∈ query.modes)
    (hnode : Eligible limits query mode node) (hany : node.anyMode) :
    ∃ remote ∈ anyModeNodes (query.nodes limits), remote.node = node ∧
      remote.workloadCount = query.tables.workload.count node.id := by
  have htakes : ∀ mode ∈ query.modes, query.tables.Takes node mode := by
    refine (h node hnode.mem hnode.candidate hany).resolve_right fun ⟨hnone, _⟩ => ?_
    rcases hnode.takes with hlists | ⟨-, hfree⟩
    · exact (hnone mode hmode).2 hlists
    · exact hfree (hnone mode hmode).1
  obtain ⟨excluded, hexcluded⟩ := exists_isColumn (query.tables.Excludes node)
  -- it passes with a queued mode that it lists, or else with any pair
  by_cases hlists : ∃ listed ∈ query.modes, query.tables.Lists node listed
  · obtain ⟨listed, hqueued, hlisted⟩ := hlists
    have hcolumn : NodeTables.IsColumn (query.tables.Lists node) (some listed) := hlisted
    have hrow := NodeQuery.mem_nodes hnode.mem hnode.candidate hcolumn hexcluded
      (acceptsModes_iff.mpr (.inr ⟨listed, rfl, hqueued⟩))
    exact ⟨_, mem_filter.mpr ⟨hrow, hany⟩, rfl, rfl⟩
  · obtain ⟨column, hcolumn⟩ := exists_isColumn (query.tables.Lists node)
    have hfree : ∀ other ∈ excluded, other ∉ query.modes := by
      intro other hother hqueued
      rw [Option.mem_def.mp hother] at hexcluded
      rcases htakes other hqueued with hlisted | ⟨-, hkept⟩
      · exact hlists ⟨other, hqueued, hlisted⟩
      · exact hkept hexcluded
    have hrow := NodeQuery.mem_nodes hnode.mem hnode.candidate hcolumn hexcluded
      (acceptsModes_iff.mpr (.inl ⟨hany, hfree⟩))
    exact ⟨_, mem_filter.mpr ⟨hrow, hany⟩, rfl, rfl⟩

theorem mem_nodesForMode (hmode : mode ∈ query.modes) (hnamed : mode ≠ "")
    (hnode : Eligible limits query mode node) (hlists : query.tables.Lists node mode) :
    ∃ remote ∈ nodesForMode (query.nodes limits) mode, remote.node = node ∧
      remote.workloadCount = query.tables.workload.count node.id := by
  obtain ⟨excluded, hexcluded⟩ := exists_isColumn (query.tables.Excludes node)
  have hcolumn : NodeTables.IsColumn (query.tables.Lists node) (some mode) := hlists
  have hrow := NodeQuery.mem_nodes hnode.mem hnode.candidate hcolumn hexcluded
    (acceptsModes_iff.mpr (.inr ⟨mode, rfl, hmode⟩))
  exact ⟨_, mem_filter.mpr ⟨hrow, by simpa using hnamed⟩, rfl, rfl⟩

/-! ## §3 The target -/

theorem eligible_of_availableTargets (h : query.AllOrNone limits) (hmode : mode ∈ query.modes)
    (hremote : remote ∈ availableTargets (query.nodes limits) mode) :
    Eligible limits query mode remote.node ∧
      remote.workloadCount = query.tables.workload.count remote.node.id := by
  rcases mem_append.mp hremote with hany | hlists
  · obtain ⟨hnode, hcandidate, -, hcount, -⟩ :=
      NodeQuery.of_mem_nodes (mem_of_mem_filter hany)
    exact ⟨⟨hnode, hcandidate, takes_of_anyModeNodes h hany mode hmode⟩, hcount⟩
  · obtain ⟨hrow, hcolumn⟩ := mem_filter.mp hlists
    simp only [ne_eq, Bool.decide_and, Bool.and_eq_true, decide_eq_true_eq] at hcolumn
    obtain ⟨hnode, hcandidate, hlisted, hcount, -⟩ := NodeQuery.of_mem_nodes hrow
    rw [hcolumn.1] at hlisted
    exact ⟨⟨hnode, hcandidate, .inl hlisted⟩, hcount⟩

theorem exists_availableTargets (h : query.AllOrNone limits) (hmode : mode ∈ query.modes)
    (hnamed : mode ≠ "") (hnode : Eligible limits query mode node) :
    ∃ remote ∈ availableTargets (query.nodes limits) mode, remote.node = node ∧
      remote.workloadCount = query.tables.workload.count node.id := by
  by_cases hany : node.anyMode
  · obtain ⟨remote, hremote, hsame⟩ := mem_anyModeNodes h hmode hnode hany
    exact ⟨remote, mem_append_left _ hremote, hsame⟩
  · have hlists := hnode.takes.resolve_right fun htakes => hany htakes.1
    obtain ⟨remote, hremote, hsame⟩ := mem_nodesForMode hmode hnamed hnode hlists
    exact ⟨remote, mem_append_right _ hremote, hsame⟩

theorem loadedAtMost_of_preferred {a b : RemoteNode}
    (ha : a.workloadCount = query.tables.workload.count a.node.id)
    (hb : b.workloadCount = query.tables.workload.count b.node.id) (h : a.preferred b) :
    LoadedAtMost query.tables a.node b.node := by
  simp only [RemoteNode.preferred, RemoteNode.key] at h
  rw [LoadedAtMost, ← ha, ← hb]
  by_cases hrunning : a.node.status = .running <;>
    by_cases hrunning' : b.node.status = .running <;>
    simp only [hrunning, hrunning', if_true, if_false] at h ⊢
  all_goals simp_all

theorem bestNode_of_target (h : query.AllOrNone limits) (hmode : mode ∈ query.modes)
    (hnamed : mode ≠ "") (htarget : target? (query.nodes limits) mode = some remote) :
    BestNode limits query mode remote.node := by
  obtain ⟨hremote, hbest⟩ := target?_eq_some htarget
  obtain ⟨heligible, hcount⟩ := eligible_of_availableTargets h hmode hremote
  refine ⟨heligible, fun other hother => ?_⟩
  obtain ⟨row, hrow, rfl, hload⟩ := exists_availableTargets h hmode hnamed hother
  exact loadedAtMost_of_preferred hcount hload (hbest row hrow)

theorem exists_target (h : query.AllOrNone limits) (hmode : mode ∈ query.modes) (hnamed : mode ≠ "")
    (hnode : Eligible limits query mode node) :
    ∃ remote, target? (query.nodes limits) mode = some remote := by
  obtain ⟨remote, hremote, -⟩ := exists_availableTargets h hmode hnamed hnode
  apply Option.ne_none_iff_exists'.mp
  intro hnone
  rw [target?_eq_none.mp hnone] at hremote
  cases hremote

/-! ## §4 Steps -/

namespace DeliveryState

variable {group : RemoteNodeGroup} {s t : DeliveryState} {row : WorkItem}

def StillQueued (t : DeliveryState) (row : WorkItem) : Prop :=
  ∃ row' ∈ t.rows, row'.workId = row.workId ∧ row'.status.isPending

/-- The items for whose mode there is no node are left READY or LOCKED. -/
def LeavesUnrouted (limits : NodeLimits) (query : NodeQuery) (s t : DeliveryState) : Prop :=
  ∀ row ∈ s.rows, row.status.isPending → (∀ node, ¬ Eligible limits query row.analysisMode node) →
    t.StillQueued row

/-- What a step may do: what is sent goes to the best node for its mode, and what no node takes is
left. -/
def RoutesWork (group : RemoteNodeGroup) (s : DeliveryState) : DeliveryEvent → Prop
  | .assign _ _ => True
  | .execute tables now => s.batch = [] →
      LeavesUnrouted group.limits ⟨tables, now, queuedModes s.rows⟩ s
        (s.step group (.execute tables now))
  | .deliver outcome => ∀ query ∈ s.query,
      (outcome ≠ .unloadable → s.selects group → ∀ item ∈ s.batch.head?, ∃ remote,
        target? (s.nodes group) item.2 = some remote ∧
          BestNode group.limits query item.2 remote.node) ∧
      LeavesUnrouted group.limits query s (s.step group (.deliver outcome))

/-- A call finds no node with `any_mode` that excludes a part of the queue, nor a queued mode without
a name; without full delivery it finds some node; and if it goes on to deliver, what earlier calls
left locked still has a node. -/
def Routable (group : RemoteNodeGroup) (s : DeliveryState) : DeliveryEvent → Prop
  | .execute tables now => s.batch = [] →
      let query : NodeQuery := ⟨tables, now, queuedModes s.rows⟩
      query.AllOrNone group.limits ∧ (∀ mode ∈ query.modes, mode ≠ "") ∧
      (query.nodes group.limits = [] → query.modes ≠ [] → group.fullDelivery) ∧
      (query.nodes group.limits ≠ [] → availableModes (query.nodes group.limits) query.modes ≠ [] →
        ∀ row ∈ s.rows, row.status = .locked →
          ∃ node, Eligible group.limits query row.analysisMode node)
  | _ => True

/-- What the thread knows of an item of its batch. -/
structure Routed (group : RemoteNodeGroup) (s : DeliveryState) (item : Nat × String) : Prop where
  row : ∃ row ∈ s.rows, row.workId = item.1 ∧ row.analysisMode = item.2
  query : ∃ query ∈ s.query, query.AllOrNone group.limits ∧ item.2 ∈ query.modes ∧ item.2 ≠ "" ∧
    ∃ node, Eligible group.limits query item.2 node

structure BatchRouted (group : RemoteNodeGroup) (s : DeliveryState) : Prop where
  ids : (s.rows.map (·.workId)).Nodup
  batch : ∀ item ∈ s.batch, Routed group s item

theorem batchRouted_start : start.BatchRouted group :=
  ⟨nodup_nil, nofun⟩

theorem mem_queuedModes (hrow : row ∈ s.rows) (hpending : row.status.isPending) :
    row.analysisMode ∈ queuedModes s.rows :=
  mem_map_of_mem (mem_filter.mpr ⟨hrow, hpending⟩)

theorem eligible_of_available (h : query.AllOrNone limits)
    (hmode : mode ∈ availableModes (query.nodes limits) query.modes) :
    ∃ node, Eligible limits query mode node := by
  have hqueued : mode ∈ query.modes := by
    unfold availableModes at hmode
    split at hmode
    · exact mem_of_mem_filter hmode
    · exact hmode
  have hrows : availableTargets (query.nodes limits) mode ≠ [] := by
    unfold availableModes at hmode
    split at hmode
    · obtain ⟨-, hmapped⟩ := mem_filter.mp hmode
      have hmapped : nodesForMode (query.nodes limits) mode ≠ [] := by simpa using hmapped
      exact fun hnone => hmapped (append_eq_nil_iff.mp hnone).2
    next hany => exact fun hnone => hany (append_eq_nil_iff.mp hnone).1
  obtain ⟨remote, hremote⟩ := exists_mem_of_ne_nil _ hrows
  exact ⟨remote.node, (eligible_of_availableTargets h hqueued hremote).1⟩

/-- What a call that goes on to deliver does to the rows: READY items of available modes are
locked. -/
theorem locked_cases {available : List String} (hids : (s.rows.map (·.workId)).Nodup)
    (hrow : row ∈ (if s.rows.any (·.status = .locked) then s.rows
      else lockBatch group available s.rows)) :
    row ∈ s.rows ∨ ∃ old ∈ s.rows, old.status = .ready ∧ old.analysisMode ∈ available ∧
      row = { old with status := .locked } := by
  split at hrow
  · exact .inl hrow
  · exact mem_lockBatch hrow hids

theorem BatchRouted.execute (h : s.BatchRouted group) {tables : NodeTables} {now : Nat}
    (hbatch : s.batch = []) (hroutable : s.Routable group (.execute tables now)) :
    (s.execute group tables now).BatchRouted group := by
  obtain ⟨hall, hnamed, -, hlocked⟩ := hroutable hbatch
  have hempty {t : DeliveryState} (ht : t.batch = s.batch) : ∀ item ∈ t.batch, Routed group t item := by
    rw [ht, hbatch]
    exact nofun
  simp only [DeliveryState.execute]
  split
  · exact h
  split
  · split
    · exact h
    · refine ⟨?_, hempty rfl⟩
      rw [map_map]
      exact h.ids
  next hnodes =>
    split
    · exact h
    next havailable =>
      refine ⟨?_, fun item hitem => ?_⟩
      · simp only
        split
        · exact h.ids
        · rw [map_workId_lockBatch]
          exact h.ids
      · obtain ⟨row, hrow, hstatus, rfl⟩ := mem_workBatch.mp hitem
        refine ⟨⟨row, hrow, rfl, rfl⟩, _, rfl, hall, ?_⟩
        rcases locked_cases h.ids hrow with hold | ⟨old, hold, hready, hmode, rfl⟩
        · have hqueued := mem_queuedModes hold (by rw [hstatus]; rfl)
          exact ⟨hqueued, hnamed _ hqueued, hlocked hnodes havailable row hold hstatus⟩
        · have hqueued := mem_queuedModes hold (by rw [hready]; rfl)
          exact ⟨hqueued, hnamed _ hqueued, eligible_of_available hall hmode⟩

theorem BatchRouted.step (h : s.BatchRouted group) (event : DeliveryEvent)
    (hevent : s.Routable group event) : (s.step group event).BatchRouted group := by
  cases event with
  | assign workId analysisMode =>
    simp only [DeliveryState.step]
    split
    · exact h
    next hnew =>
      have hgone : workId ∉ s.rows.map (·.workId) := by simpa using hnew
      refine ⟨?_, fun item hitem => ?_⟩
      · rw [map_append, nodup_append]
        refine ⟨h.ids, pairwise_singleton _ _, ?_⟩
        rintro a ha b hb rfl
        rw [mem_singleton.mp hb] at ha
        exact hgone ha
      · obtain ⟨⟨row, hrow, hsame⟩, hquery⟩ := h.batch item hitem
        exact ⟨⟨row, mem_append_left _ hrow, hsame⟩, hquery⟩
  | execute tables now =>
    simp only [DeliveryState.step]
    split
    next hbatch => exact h.execute hbatch hevent
    · exact h
  | deliver outcome =>
    simp only [DeliveryState.step]
    cases hbatch : s.batch with
    | nil =>
      simp only [deliver, hbatch]
      exact h
    | cons first rest =>
      obtain ⟨⟨set, hset, hrows⟩, hrest, hquery⟩ := deliver_rows group outcome hbatch
      refine ⟨?_, fun item hitem => ?_⟩
      · rw [hrows, map_workId_update hset.workId]
        exact h.ids
      · obtain ⟨⟨row, hrow, hid, hmode⟩, hrouted⟩ :=
          h.batch item (hbatch ▸ mem_cons_of_mem _ (hrest item hitem))
        refine ⟨?_, hquery.symm ▸ hrouted⟩
        rw [hrows]
        refine ⟨_, mem_update.mpr ⟨row, hrow, rfl⟩, ?_⟩
        split
        · exact ⟨(hset.workId row).trans hid, (hset.analysisMode row).trans hmode⟩
        · exact ⟨hid, hmode⟩

/-! ## §5 Runs -/

/-- A call takes no item out of the queue, where it finds a node or the group is in full delivery. -/
theorem leaves_execute {tables : NodeTables} {now : Nat}
    (hbatch : s.batch = []) (hroutable : s.Routable group (.execute tables now)) :
    LeavesUnrouted group.limits ⟨tables, now, queuedModes s.rows⟩ s
      (s.execute group tables now) := by
  obtain ⟨-, -, hsome, -⟩ := hroutable hbatch
  intro row hrow hpending _
  have hsame : s.StillQueued row := ⟨row, hrow, rfl, hpending⟩
  simp only [DeliveryState.execute]
  split
  · exact hsame
  next hmodes =>
    split
    next hnone =>
      rw [if_pos (hsome hnone hmodes)]
      exact hsame
    · split
      · exact hsame
      · show ∃ row' ∈ _, _
        simp only
        split
        · exact hsame
        · refine ⟨_, mem_map_of_mem hrow, ?_⟩
          split
          · exact ⟨rfl, rfl⟩
          · exact ⟨rfl, hpending⟩

/-- A delivery sends its item to the best node, and leaves every item that no node takes. -/
theorem BatchRouted.routes_deliver (h : s.BatchRouted group) (outcome : DeliveryOutcome) :
    s.RoutesWork group (.deliver outcome) := by
  intro query hquery
  refine ⟨fun _ _ item hitem => ?_, fun row hrow hpending hnone => ?_⟩
  · obtain ⟨-, query', hquery', hall, hmode, hnamed, node, hnode⟩ :=
      h.batch item (mem_of_mem_head? hitem)
    obtain rfl : query = query' := Option.mem_unique hquery hquery'
    have hnodes : s.nodes group = query.nodes group.limits := by
      rw [nodes, Option.mem_def.mp hquery]
      rfl
    rw [hnodes]
    obtain ⟨remote, htarget⟩ := exists_target hall hmode hnamed hnode
    exact ⟨remote, htarget, bestNode_of_target hall hmode hnamed htarget⟩
  · simp only [DeliveryState.step]
    cases hbatch : s.batch with
    | nil =>
      simp only [deliver, hbatch]
      exact ⟨row, hrow, rfl, hpending⟩
    | cons first rest =>
      obtain ⟨⟨set, -, hrows⟩, -, -⟩ := deliver_rows group outcome hbatch
      rw [StillQueued, hrows]
      refine ⟨row, mem_update_of_ne hrow fun hid => ?_, rfl, hpending⟩
      -- the item that is delivered has a node
      obtain ⟨⟨row', hrow', hid', hmode⟩, query', hquery', -, -, -, node, hnode⟩ :=
        h.batch first (hbatch ▸ mem_cons_self)
      obtain rfl : query = query' := Option.mem_unique hquery hquery'
      obtain rfl := inj_on_of_nodup_map h.ids hrow hrow' (hid.trans hid'.symm)
      exact hnone node (hmode ▸ hnode)

def runningNode (anyMode : Bool) : Node :=
  ⟨1, "engine", "localhost:443", 1, 0, anyMode, .running⟩

def excluding (modes : List String) (hmodes : (modes.map (NodeMode.mk 1)).Nodup) : NodeTables where
  nodes := [runningNode true]
  nodeModes := []
  nodeModesExcluded := modes.map (NodeMode.mk 1)
  workload := []
  nodes_nodup := by decide
  nodeModes_nodup := nodup_nil
  nodeModesExcluded_nodup := hmodes

def listing (mode : String) : NodeTables where
  nodes := [runningNode false]
  nodeModes := [⟨1, mode⟩]
  nodeModesExcluded := []
  workload := []
  nodes_nodup := by decide
  nodeModes_nodup := nodup_singleton _
  nodeModesExcluded_nodup := nodup_nil

def routedToLister : List DeliveryEvent :=
  [.assign 1 "email", .execute (listing "email") 0, .deliver .submitted]

/-- An item in one of the two modes that the node excludes. -/
def excludedMode : List DeliveryEvent :=
  [.assign 1 "correlation", .execute (excluding ["correlation", "email"] (by decide)) 0,
    .deliver .submitted]

/-- An item that stayed locked, whose node lists another mode by the next call. -/
def nodeChanged : List DeliveryEvent :=
  [.assign 1 "email", .execute (listing "email") 0, .deliver (.raised true),
    .assign 2 "analysis", .execute (listing "analysis") 0, .deliver .submitted]

end DeliveryState

end Ace3.Collectors
