import Ace3.Lib.ObjectHeap
import Ace3.Query.TemplateRendering

/-!
# Rendering in the Heap

The flattening of an event takes its dictionaries as they are, and so do the elements that take the
place of a list, so what is written into the flattened event may be written into the event. Here
the dictionaries are objects in a heap, and a call leaves behind the heaps that it went through.
-/

namespace Ace3.Query

open Lib Lib.ObjectHeap

/-! ## §1 The walk -/

abbrev EventHeap := Heap Key Scalar

abbrev ObjRef := Ref Scalar

/-- `isinstance(value, dict)`. -/
def isDictRef : ObjRef → Bool
  | .dict _ => true
  | _ => false

/-- The walk from the dictionary at the address `cursor`, with `cursor[part] = value` at its end.
On the way, what is absent or no dictionary is replaced by a new one. With `keep`, a dictionary that
is there at the end is preserved if the value is none. -/
def walkAndSet (keep : Bool) (value : ObjRef) : List Key → ℕ → EventHeap → EventHeap
  | [], _, h => h
  | [part], cursor, h =>
    if keep && ((h.cells cursor).lookup part).any isDictRef && !isDictRef value then h
    else put h cursor part value
  | part :: rest, cursor, h =>
    match (h.cells cursor).lookup part with
    | some (.dict existing) => walkAndSet keep value rest existing h
    | _ => walkAndSet keep value rest h.next (put (alloc h) cursor part (.dict h.next))

/-! ## §2 Flattening -/

/-- The heap, and the heaps that a call has gone through. -/
structure Run where
  heap : EventHeap
  moments : List EventHeap

def Run.goOn (run : Run) (heap : EventHeap) : Run := ⟨heap, run.moments ++ [heap]⟩

/-- One key of the event, merged into the dictionary at the address. -/
def mergeKeyAt (result : ℕ) (run : Run) : Key × ObjRef → Run
  | (.int i, value) => run.goOn (put run.heap result (.int i) value)
  | (.str rawKey, value) => run.goOn (walkAndSet true value (partsOf rawKey) result run.heap)

/-- `_expand_dotted_keys`: the address of the result, which is a new dictionary. -/
def expandDottedKeysAt (event : ℕ) (h : EventHeap) : ℕ × Run :=
  (h.next, (h.cells event).foldl (mergeKeyAt h.next) ⟨alloc h, [alloc h]⟩)

/-! ## §3 One template -/

structure Engine where
  /-- `Environment().parse(template)`, or nothing on a syntax error. -/
  parse : String → Option Node
  /-- The template rendered against what it sees of its context. -/
  render : String → (List (Seg Key) → Option (Outline Key Scalar)) → Bool → Rendered
  /-- What a template does to its context: the sandbox lets it call methods that change a
  dictionary. -/
  effect : String → EventHeap → ℕ → Bool → EventHeap

/-- The template calls no method that changes anything. -/
def Engine.OnlyReads (engine : Engine) (template : String) : Prop :=
  ∀ h context strict, engine.effect template h context strict = h

variable (engine : Engine)

def renderJinjaTemplateAt (template : String) (context : ℕ) (strict : Bool) (run : Run) :
    Except Undefined (Option String) × Run :=
  let rendered :=
    match engine.render template (fun path => look run.heap path (.dict context)) strict with
    | .text s => .ok (some s)
    | .undefinedError => if strict then .error .raised else .ok none
    | .otherError => .ok none
  (rendered, run.goOn (engine.effect template run.heap context strict))

def renderEventTemplateAt (template : String) (event : ℕ) (strict : Bool) (h : EventHeap) :
    Except Undefined (Option String) × Run :=
  let (flat, run) := expandDottedKeysAt event h
  renderJinjaTemplateAt engine template flat strict run

/-! ## §4 Several templates -/

def renderRowAt (scope : ℕ) (strict : Bool) :
    List String → Run → Except Undefined (Option (List String)) × Run
  | [], run => (.ok (some []), run)
  | template :: templates, run =>
    match renderJinjaTemplateAt engine template scope strict run with
    | (.error e, run) => (.error e, run)
    | (.ok none, run) => (.ok none, run)
    | (.ok (some rendered), run) =>
      let rest := renderRowAt scope strict templates run
      (rest.1.map fun row => row.map (rendered :: ·), rest.2)

def resolvePathAt (h : EventHeap) : List Key → ObjRef → Option ObjRef
  | [], cursor => some cursor
  | key :: path, .dict address => ((h.cells address).lookup key).bind (resolvePathAt h path)
  | .int i :: path, .list items =>
    if 0 ≤ i then (items[i.toNat]?).bind (resolvePathAt h path) else none
  | _ :: _, _ => none

def axesAt (h : EventHeap) (flat : ℕ) (paths : List (List Key)) : List (List Key × List ObjRef) :=
  paths.filterMap fun path =>
    match resolvePathAt h path (.dict flat) with
    | some (.list items) => some (path, items)
    | _ => none

mutual

/-- The reference to the copy of what it refers to, where copies are `offset` further on. -/
def shiftRef (offset : ℕ) : ObjRef → ObjRef
  | .atom a => .atom a
  | .list items => .list (shiftRefs offset items)
  | .dict address => .dict (offset + address)

def shiftRefs (offset : ℕ) : List ObjRef → List ObjRef
  | [] => []
  | r :: items => shiftRef offset r :: shiftRefs offset items

end

/-- The heap after `copy.deepcopy(d)`: there is a copy of every dictionary, and the copy of the one
at an address is `h.next` further on. (Those that `d` does not lead to are not used.) -/
def copyHeap (h : EventHeap) : EventHeap where
  cells address :=
    if address < h.next then h.cells address
    else (h.cells (address - h.next)).map fun item => (item.1, shiftRef h.next item.2)
  next := h.next + h.next

/-- One combination of elements: the copy of the flattened event, with an element in the place of
each list. -/
def scopedToAt (flat : ℕ) (assigned : List (List Key × ObjRef)) (run : Run) : ℕ × Run :=
  let scope := run.heap.next + flat
  (scope, assigned.foldl (fun run (path, scalar) =>
    run.goOn (walkAndSet false scalar path scope run.heap)) (run.goOn (copyHeap run.heap)))

def renderCombosAt (templates : List String) (strict : Bool) (flat : ℕ) (paths : List (List Key)) :
    List (List ObjRef) → Run → Except Undefined (List (List String)) × Run
  | [], run => (.ok [], run)
  | combo :: combos, run =>
    let (scope, run) := scopedToAt flat (paths.zip combo) run
    match renderRowAt engine scope strict templates run with
    | (.error e, run) => (.error e, run)
    | (.ok row, run) =>
      let rest := renderCombosAt templates strict flat paths combos run
      (rest.1.map fun rows => row.toList ++ rows, rest.2)

def renderEventTemplatesMultiAt (templates : List String) (event : ℕ) (strict : Bool)
    (h : EventHeap) : Except Undefined (List (List String)) × Run :=
  let (flat, run) := expandDottedKeysAt event h
  match templates.mapM engine.parse with
  | none => (.ok [], run)
  | some parsed =>
    let axes := axesAt run.heap flat (allPaths parsed)
    -- an empty list anywhere: nothing is rendered
    if axes.any fun axis => axis.2.isEmpty then (.ok [], run)
    else if axes.isEmpty then
      let row := renderRowAt engine flat strict templates run
      (row.1.map Option.toList, row.2)
    else
      renderCombosAt engine templates strict flat (axes.map (·.1)) (product (axes.map (·.2))) run

end Ace3.Query
