import Ace3.Lib.Sql
import Mathlib.Data.List.Sort

/-!
# The Nodes a Group Can Send To

The query of `RemoteNodeGroup.execute` in `saq/collectors/remote_node.py` over the tables of nodes,
and the choice of a target for one work item from its rows. The query is asked once for all the modes
that are queued; the choice is made for each item.
-/

namespace Ace3.Collectors

open List
open Lib Lib.Sql

/-! ## §1 Tables -/

/-- The values of `nodes.status`. -/
inductive NodeStatus where
  | starting
  | running
  | drainingCollectors
  | draining
  | drained
  | stopped
  deriving DecidableEq

/-- A row of `nodes`. -/
structure Node where
  id : Nat
  name : String
  location : String
  companyId : Nat
  lastUpdate : Nat
  anyMode : Bool
  status : NodeStatus
  deriving DecidableEq

/-- A row of `node_modes` or of `node_modes_excluded`. -/
structure NodeMode where
  nodeId : Nat
  analysisMode : String
  deriving DecidableEq

/-- The tables of nodes with their primary keys; `workload` has the node of each workload row. -/
structure NodeTables where
  nodes : List Node
  nodeModes : List NodeMode
  nodeModesExcluded : List NodeMode
  workload : List Nat
  nodes_nodup : (nodes.map (·.id)).Nodup
  nodeModes_nodup : nodeModes.Nodup
  nodeModesExcluded_nodup : nodeModesExcluded.Nodup

/-- What a group restricts its nodes to; the company is the one that `execute` looks for. -/
structure NodeLimits where
  companyId : Nat
  nodeStatusUpdateFrequency : Nat
  targetNodes : List String

/-- A `RemoteNode`, as one row of the query gives it. -/
structure RemoteNode where
  node : Node
  analysisMode : Option String
  workloadCount : Nat
  deriving DecidableEq

namespace NodeTables

/-! ## §2 The query -/

structure JoinedRow where
  node : Node
  analysisMode : Option String
  excludedMode : Option String
  workload : Bool
  deriving DecidableEq

def withModes (tables : NodeTables) : List JoinedRow :=
  leftJoin (fun row mode => some (row.node.id = mode.nodeId))
    (fun row mode => { row with analysisMode := some mode.analysisMode }) tables.nodeModes
    (tables.nodes.map fun node => ⟨node, none, none, false⟩)

def withExcluded (tables : NodeTables) : List JoinedRow :=
  leftJoin (fun row mode => some (row.node.id = mode.nodeId))
    (fun row mode => { row with excludedMode := some mode.analysisMode }) tables.nodeModesExcluded
    tables.withModes

def joinedRows (tables : NodeTables) : List JoinedRow :=
  leftJoin (fun row nodeId => some (row.node.id = nodeId))
    (fun row _ => { row with workload := true }) tables.workload tables.withExcluded

/-- The conditions that do not look at modes: the company, the time of the last update, the status,
and the names the group is limited to. -/
def isCandidate (limits : NodeLimits) (now : Nat) (node : Node) : Bool :=
  node.companyId = limits.companyId ∧
    now - node.lastUpdate ≤ limits.nodeStatusUpdateFrequency * 2 ∧
    (node.status = .running ∨ node.status = .drainingCollectors) ∧
    (limits.targetNodes = [] ∨ node.name ∈ limits.targetNodes)

/-- The condition on the modes, with all the modes that are queued. -/
def acceptsModes (modes : List String) (row : JoinedRow) : Truth :=
  Truth.or
    (Truth.and (some row.node.anyMode)
      (Truth.or (isNull row.excludedMode) (Truth.not (holds row.excludedMode (· ∈ modes)))))
    (holds row.analysisMode (· ∈ modes))

def whereClause (limits : NodeLimits) (now : Nat) (modes : List String) (row : JoinedRow) : Truth :=
  Truth.and (some (isCandidate limits now row.node)) (acceptsModes modes row)

/-- `ORDER BY WORKLOAD_COUNT ASC, nodes.last_update ASC` -/
def orderedBefore (a b : RemoteNode) : Prop :=
  a.workloadCount < b.workloadCount ∨
    a.workloadCount = b.workloadCount ∧ a.node.lastUpdate ≤ b.node.lastUpdate

instance : DecidableRel orderedBefore := fun a b =>
  inferInstanceAs (Decidable (a.workloadCount < b.workloadCount ∨
    a.workloadCount = b.workloadCount ∧ a.node.lastUpdate ≤ b.node.lastUpdate))

def nodeStatus (tables : NodeTables) (limits : NodeLimits) (now : Nat) (modes : List String) :
    List RemoteNode :=
  let rows := tables.joinedRows.filter fun row => whereClause limits now modes row = some true
  let groups := groupBy (fun row => (row.node, row.analysisMode, row.excludedMode)) rows
  (groups.map fun group => ⟨group.1.1, group.1.2.1, group.2.countP (·.workload)⟩).insertionSort
    orderedBefore

end NodeTables

/-! ## §3 The choice of a target -/

def anyModeNodes (nodes : List RemoteNode) : List RemoteNode :=
  nodes.filter (·.node.anyMode)

/-- `analysis_mode_mapping`; a mode that is empty is not entered. -/
def nodesForMode (nodes : List RemoteNode) (mode : String) : List RemoteNode :=
  nodes.filter fun node => node.analysisMode = some mode ∧ mode ≠ ""

/-- The modes that are still looked for: without a node that takes any mode, only those mapped. -/
def availableModes (nodes : List RemoteNode) (modes : List String) : List String :=
  if anyModeNodes nodes = [] then modes.filter fun mode => nodesForMode nodes mode ≠ [] else modes

/-- Running nodes come first, and then those with less work. -/
def RemoteNode.key (node : RemoteNode) : Nat × Nat :=
  (if node.node.status = .running then 0 else 1, node.workloadCount)

/-- The order of the keys, as Python compares tuples. -/
def RemoteNode.preferred (a b : RemoteNode) : Prop :=
  a.key.1 < b.key.1 ∨ a.key.1 = b.key.1 ∧ a.key.2 ≤ b.key.2

instance : DecidableRel RemoteNode.preferred := fun a b =>
  inferInstanceAs (Decidable (a.key.1 < b.key.1 ∨ a.key.1 = b.key.1 ∧ a.key.2 ≤ b.key.2))

instance : Std.Total RemoteNode.preferred where
  total a b := by
    unfold RemoteNode.preferred
    omega

instance : IsTrans RemoteNode RemoteNode.preferred where
  trans a b c := by
    unfold RemoteNode.preferred
    omega

def availableTargets (nodes : List RemoteNode) (mode : String) : List RemoteNode :=
  anyModeNodes nodes ++ nodesForMode nodes mode

/-- The target of a work item. Without one, `target[0]` raises. -/
def target? (nodes : List RemoteNode) (mode : String) : Option RemoteNode :=
  ((availableTargets nodes mode).insertionSort RemoteNode.preferred).head?

/-! ## §4 The rows of the query -/

namespace NodeTables

variable {tables : NodeTables} {limits : NodeLimits} {now : Nat} {modes : List String}

def Lists (tables : NodeTables) (node : Node) (mode : String) : Prop :=
  ⟨node.id, mode⟩ ∈ tables.nodeModes

def Excludes (tables : NodeTables) (node : Node) (mode : String) : Prop :=
  ⟨node.id, mode⟩ ∈ tables.nodeModesExcluded

/-- A column of an outer join: a value of the node, or nothing where it has none. -/
def IsColumn (values : String → Prop) : Option String → Prop
  | some mode => values mode
  | none => ∀ mode, ¬ values mode

variable {row : JoinedRow}

theorem mem_withModes : row ∈ tables.withModes ↔
    row.node ∈ tables.nodes ∧ IsColumn (tables.Lists row.node) row.analysisMode ∧
      row.excludedMode = none ∧ row.workload = false := by
  simp only [withModes, mem_leftJoin, mem_map, Option.some.injEq, decide_eq_true_eq]
  constructor
  · rintro ⟨_, ⟨node, hnode, rfl⟩, ⟨⟨id, mode⟩, hmode, rfl, rfl⟩ | ⟨hnone, rfl⟩⟩
    · exact ⟨hnode, hmode, rfl, rfl⟩
    · refine ⟨hnode, fun mode hmode => ?_, rfl, rfl⟩
      exact hnone ⟨node.id, mode⟩ hmode (by simp)
  · rintro ⟨hnode, hcolumn, hexcluded, hworkload⟩
    obtain ⟨node, mode, excluded, workload⟩ := row
    subst hexcluded hworkload
    refine ⟨_, ⟨node, hnode, rfl⟩, ?_⟩
    cases mode with
    | some mode => exact .inl ⟨⟨node.id, mode⟩, hcolumn, rfl, rfl⟩
    | none =>
      refine .inr ⟨fun t ht hid => ?_, rfl⟩
      have hid : node.id = t.nodeId := by simpa using hid
      exact hcolumn t.analysisMode (by rw [Lists, hid]; exact ht)

theorem mem_withExcluded : row ∈ tables.withExcluded ↔
    row.node ∈ tables.nodes ∧ IsColumn (tables.Lists row.node) row.analysisMode ∧
      IsColumn (tables.Excludes row.node) row.excludedMode ∧ row.workload = false := by
  simp only [withExcluded, mem_leftJoin, mem_withModes, Option.some.injEq, decide_eq_true_eq]
  constructor
  · rintro ⟨row', ⟨hnode, hcolumn, hnone, hworkload⟩, ⟨⟨id, mode⟩, hmode, hid, rfl⟩ | ⟨hfree, rfl⟩⟩
    · refine ⟨hnode, hcolumn, ?_, hworkload⟩
      have hid : row'.node.id = id := hid
      subst hid
      exact hmode
    · refine ⟨hnode, hcolumn, ?_, hworkload⟩
      rw [hnone]
      exact fun mode hmode => hfree ⟨row.node.id, mode⟩ hmode (by simp)
  · rintro ⟨hnode, hcolumn, hexcluded, hworkload⟩
    refine ⟨{ row with excludedMode := none }, ⟨hnode, hcolumn, rfl, hworkload⟩, ?_⟩
    obtain ⟨node, mode, excluded, workload⟩ := row
    cases excluded with
    | some excluded => exact .inl ⟨⟨node.id, excluded⟩, hexcluded, rfl, rfl⟩
    | none =>
      refine .inr ⟨fun t ht hid => ?_, rfl⟩
      have hid : node.id = t.nodeId := by simpa using hid
      exact hexcluded t.analysisMode (by rw [Excludes, hid]; exact ht)

theorem nodup_withExcluded : tables.withExcluded.Nodup := by
  have hnodes : (tables.nodes.map fun node => (⟨node, none, none, false⟩ : JoinedRow)).Nodup := by
    apply (List.Nodup.of_map _ tables.nodes_nodup).map
    intro node node' hsame
    exact congrArg JoinedRow.node hsame
  have hmodes : tables.withModes.Nodup := by
    refine nodup_leftJoin (fun row => { row with analysisMode := none }) ?_ ?_ ?_ hnodes
      tables.nodeModes_nodup
    · intro row hrow
      obtain ⟨node, -, rfl⟩ := mem_map.mp hrow
      rfl
    · intro row hrow mode _
      obtain ⟨node, -, rfl⟩ := mem_map.mp hrow
      rfl
    · intro row _ mode _ mode' _ hon hon' hsame
      simp only [Option.some.injEq, decide_eq_true_eq] at hon hon'
      have hmode := congrArg JoinedRow.analysisMode hsame
      simp only [Option.some.injEq] at hmode
      cases mode
      cases mode'
      exact congrArg₂ NodeMode.mk (hon.symm.trans hon') hmode
  refine nodup_leftJoin (fun row => { row with excludedMode := none }) ?_ ?_ ?_ hmodes
    tables.nodeModesExcluded_nodup
  · intro row hrow
    obtain ⟨-, -, hnone, -⟩ := mem_withModes.mp hrow
    obtain ⟨node, mode, excluded, workload⟩ := row
    obtain rfl : excluded = none := hnone
    rfl
  · intro row hrow mode _
    obtain ⟨-, -, hnone, -⟩ := mem_withModes.mp hrow
    obtain ⟨node, mode, excluded, workload⟩ := row
    obtain rfl : excluded = none := hnone
    rfl
  · intro row _ mode _ mode' _ hon hon' hsame
    simp only [Option.some.injEq, decide_eq_true_eq] at hon hon'
    have hmode := congrArg JoinedRow.excludedMode hsame
    simp only [Option.some.injEq] at hmode
    cases mode
    cases mode'
    exact congrArg₂ NodeMode.mk (hon.symm.trans hon') hmode

theorem whereClause_workload (row : JoinedRow) (workload : Bool) :
    whereClause limits now modes { row with workload := workload } =
      whereClause limits now modes row := rfl

theorem exists_mem_joinedRows {node : Node} {mode excluded : Option String} :
    (∃ workload, (⟨node, mode, excluded, workload⟩ : JoinedRow) ∈ tables.joinedRows) ↔
      (⟨node, mode, excluded, false⟩ : JoinedRow) ∈ tables.withExcluded := by
  constructor
  · rintro ⟨workload, hmem⟩
    obtain ⟨row, hrow, ⟨id, -, -, hset⟩ | ⟨-, hsame⟩⟩ := mem_leftJoin.mp hmem
    all_goals
      obtain ⟨-, -, -, hworkload⟩ := mem_withExcluded.mp hrow
      obtain ⟨node', mode', excluded', workload'⟩ := row
      subst hworkload
      simp only [JoinedRow.mk.injEq] at *
    · obtain ⟨rfl, rfl, rfl, -⟩ := hset
      exact hrow
    · obtain ⟨rfl, rfl, rfl, -⟩ := hsame
      exact hrow
  · intro hmem
    have hkept : ∃ row' ∈ tables.joinedRows,
        row' = ⟨node, mode, excluded, false⟩ ∨ ∃ id ∈ tables.workload,
          row' = ⟨node, mode, excluded, true⟩ := exists_mem_leftJoin hmem
    obtain ⟨row', hrow', rfl | ⟨id, -, rfl⟩⟩ := hkept
    · exact ⟨false, hrow'⟩
    · exact ⟨true, hrow'⟩

theorem countP_joinedRows (hrow : row ∈ tables.withExcluded) :
    tables.joinedRows.countP (fun joined => joined.workload ∧ joined.node = row.node ∧
      joined.analysisMode = row.analysisMode ∧ joined.excludedMode = row.excludedMode) =
      tables.workload.count row.node.id := by
  rw [joinedRows, countP_leftJoin _ nodup_withExcluded hrow]
  · rw [List.count]
    apply countP_congr
    intro id _
    simp only [Option.some.injEq, decide_eq_true_eq, and_self, and_true, beq_iff_eq]
    exact ⟨Eq.symm, Eq.symm⟩
  · intro row' hrow' hne id _ hsame
    simp only [true_and, decide_eq_true_eq] at hsame
    obtain ⟨hnode, hmode, hexcluded⟩ := hsame
    have hworkload : row'.workload = row.workload :=
      (mem_withExcluded.mp hrow').2.2.2.trans (mem_withExcluded.mp hrow).2.2.2.symm
    obtain ⟨node, mode, excluded, workload⟩ := row
    obtain ⟨node', mode', excluded', workload'⟩ := row'
    subst hnode hmode hexcluded hworkload
    exact hne rfl
  · intro row' hrow' hsame
    have hworkload' := (mem_withExcluded.mp hrow').2.2.2
    simp [hworkload'] at hsame

theorem countP_group (hrow : row ∈ tables.withExcluded)
    (hwhere : whereClause limits now modes row = some true) :
    ((tables.joinedRows.filter fun joined => whereClause limits now modes joined = some true).filter
      fun joined => (joined.node, joined.analysisMode, joined.excludedMode) =
        (row.node, row.analysisMode, row.excludedMode)).countP (·.workload) =
      tables.workload.count row.node.id := by
  rw [← countP_joinedRows hrow, countP_filter, countP_filter]
  apply countP_congr
  intro joined _
  simp only [Prod.mk.injEq, Bool.and_eq_true, decide_eq_true_eq, Bool.decide_and]
  constructor
  · rintro ⟨⟨hload, hkey⟩, -⟩
    exact ⟨hload, hkey⟩
  · rintro ⟨hload, hnode, hmode, hexcluded⟩
    refine ⟨⟨hload, hnode, hmode, hexcluded⟩, ?_⟩
    -- the conditions read the same columns in each row of the group
    obtain ⟨node, mode, excluded, workload⟩ := joined
    subst hnode hmode hexcluded
    exact hwhere

/-- The rows of the query: a node with one of its modes, which some pair of modes lets pass, and
with its workload. -/
theorem mem_nodeStatus {remote : RemoteNode} :
    remote ∈ tables.nodeStatus limits now modes ↔
      (∃ excluded, (⟨remote.node, remote.analysisMode, excluded, false⟩ : JoinedRow) ∈
          tables.withExcluded ∧
        whereClause limits now modes ⟨remote.node, remote.analysisMode, excluded, false⟩ =
          some true) ∧
      remote.workloadCount = tables.workload.count remote.node.id := by
  simp only [nodeStatus, mem_insertionSort, mem_map, Prod.exists]
  constructor
  · rintro ⟨node, mode, excluded, grouped, hgroup, rfl⟩
    obtain ⟨⟨row, hrow, hkey⟩, rfl⟩ := mem_groupBy.mp hgroup
    obtain ⟨hjoined, hwhere⟩ := mem_filter.mp hrow
    simp only [decide_eq_true_eq] at hwhere
    obtain ⟨node', mode', excluded', workload⟩ := row
    simp only [Prod.mk.injEq] at hkey
    obtain ⟨rfl, rfl, rfl⟩ := hkey
    have hmem := exists_mem_joinedRows.mp ⟨workload, hjoined⟩
    exact ⟨⟨excluded', hmem, hwhere⟩, countP_group hmem hwhere⟩
  · rintro ⟨⟨excluded, hmem, hwhere⟩, hcount⟩
    obtain ⟨workload, hjoined⟩ := exists_mem_joinedRows.mpr hmem
    refine ⟨remote.node, remote.analysisMode, excluded, _, mem_groupBy.mpr ⟨?_, rfl⟩, ?_⟩
    · have hwhere := (whereClause_workload _ workload).trans hwhere
      exact ⟨_, mem_filter.mpr ⟨hjoined, by simpa using hwhere⟩, rfl⟩
    · rw [countP_group hmem hwhere, ← hcount]

end NodeTables

/-! ## §5 The target -/

variable {nodes : List RemoteNode} {mode : String} {remote : RemoteNode}

theorem target?_eq_some (h : target? nodes mode = some remote) :
    remote ∈ availableTargets nodes mode ∧
      ∀ other ∈ availableTargets nodes mode, remote.preferred other := by
  unfold target? at h
  have hsorted := pairwise_insertionSort RemoteNode.preferred (availableTargets nodes mode)
  cases hlist : (availableTargets nodes mode).insertionSort RemoteNode.preferred with
  | nil => rw [hlist] at h; cases h
  | cons first rest =>
    rw [hlist] at h hsorted
    obtain rfl : first = remote := Option.some.inj h
    have hmem (other : RemoteNode) : other ∈ availableTargets nodes mode ↔
        other ∈ first :: rest := by
      rw [← hlist, mem_insertionSort]
    refine ⟨(hmem first).mpr mem_cons_self, fun other hother => ?_⟩
    rcases mem_cons.mp ((hmem other).mp hother) with rfl | hrest
    · exact .inr ⟨rfl, Nat.le_refl _⟩
    · exact (pairwise_cons.mp hsorted).1 other hrest

theorem target?_eq_none : target? nodes mode = none ↔ availableTargets nodes mode = [] := by
  rw [target?, List.head?_eq_none_iff, ← length_eq_zero_iff, length_insertionSort,
    length_eq_zero_iff]

end Ace3.Collectors
