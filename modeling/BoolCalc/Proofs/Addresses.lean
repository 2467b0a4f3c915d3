import BoolCalc.Render.Node
import Mathlib

/-!
# Addresses of Nodes

The addresses of a drawn tree, as paths.

Four recursions make addresses: the one that draws a tree, the one that indexes
it, the one that lists its edges, and the one that lists the addresses of the
operands of a single node. Nothing in them refers to the others. What they have
in common is that a node is reached from the root by steps down, and that its
address is the root's with a letter for each step. `Expr.descendants` lists the
nodes with the paths that lead to them, and the drawing, the index and the edges
are each that list, read in its own way.

The index is the delicate one. It is put together by unions of maps, and a key
that occurred twice would silently lose a node. Two paths never have the same
address under one root, whatever letters the address of the root ends in,
because they are what is left when the root's address is taken away. So the maps
that are united have no key in common, and the union puts their entries one
after the other.

## Main definitions

* `Turn`: A step from a node to one of its operands.
* `address`: The address at the end of a path.
* `Expr.subtree?`: The sub-expression at the end of a path.
* `Expr.nodes`, `Expr.descendants`: The nodes with their paths, with and without
  the root.
* `Drawn.nodes`: The nodes of a drawn tree.

## Theorems

* `address_injective`: Different paths have different addresses.
* `mem_nodes_iff`: The nodes are the sub-expressions at the ends of paths.
* `nodes_draw`, `entries_nodeIndex`, `nodeEdges_eq_map`: The drawing, the index
  and the edges by the nodes.
* `nodeIndex_follows_drawing`: The index and the edges keep step with the
  drawing.
-/

namespace BoolCalc

/-- A step from a node down to one of its operands. -/
inductive Turn
  | down
  | left
  | right
  deriving DecidableEq, Repr

/-- The letter that a step adds to an address. -/
def Turn.letter : Turn → Char
  | down => 'D'
  | left => 'L'
  | right => 'R'

theorem Turn.letter_injective : Function.Injective Turn.letter := by
  intro turn turn'
  cases turn with
  | down | left | right =>
      cases turn' with
      | down | left | right => decide

/-- The address at the end of a path from a root with the given address. -/
def address (id : String) (path : List Turn) : String :=
  id ++ String.ofList (path.map Turn.letter)

theorem toList_address (id : String) (path : List Turn) :
    (address id path).toList = id.toList ++ path.map Turn.letter := by
  rw [address, String.toList_append, String.toList_ofList]

theorem address_append (id : String) (path path' : List Turn) :
    address id (path ++ path') = address (address id path) path' := by
  refine String.toList_injective ?_
  simp only [toList_address, List.map_append, List.append_assoc]

theorem address_nil (id : String) : address id [] = id := by
  refine String.toList_injective ?_
  rw [toList_address, List.map_nil, List.append_nil]

/-- Different paths have different addresses. -/
theorem address_injective (id : String) : Function.Injective (address id) := by
  intro path path' h
  have hletters := congrArg String.toList h
  rw [toList_address, toList_address, List.append_cancel_left_eq] at hletters
  exact List.map_injective_iff.mpr Turn.letter_injective hletters

/-- The nodes of an operand with their paths from the node above it. -/
def under (turn : Turn) (nodes : List (List Turn × Expr)) : List (List Turn × Expr) :=
  nodes.map fun node => (turn :: node.1, node.2)

theorem mem_under_iff {turn : Turn} {nodes : List (List Turn × Expr)} {path : List Turn}
    {e : Expr} :
    (path, e) ∈ under turn nodes ↔ ∃ rest, path = turn :: rest ∧ (rest, e) ∈ nodes := by
  rw [under, List.mem_map]
  constructor
  · rintro ⟨⟨rest, e'⟩, hmem, heq⟩
    cases heq
    exact ⟨rest, rfl, hmem⟩
  · rintro ⟨rest, rfl, hmem⟩
    exact ⟨(rest, e), hmem, rfl⟩

namespace Expr

/-- The operand that a step leads to. -/
def operand? : Expr → Turn → Option Expr
  | unary _ operand, .down => some operand
  | binary _ left _, .left => some left
  | binary _ _ right, .right => some right
  | _, _ => none

/-- The sub-expression at the end of a path. -/
def subtree? : Expr → List Turn → Option Expr
  | e, [] => some e
  | e, turn :: path => (e.operand? turn).bind fun operand => operand.subtree? path

/-- The nodes below the root with the paths to them, parents before children and
    left before right. -/
def descendants : Expr → List (List Turn × Expr)
  | terminal _ => []
  | unary _ operand => under .down (([], operand) :: operand.descendants)
  | binary _ left right =>
    under .left (([], left) :: left.descendants) ++
      under .right (([], right) :: right.descendants)

/-- The nodes with the paths to them, the root first. -/
def nodes (e : Expr) : List (List Turn × Expr) := ([], e) :: e.descendants

/-- The number of nodes. -/
def size : Expr → Nat
  | terminal _ => 1
  | unary _ operand => operand.size + 1
  | binary _ left right => left.size + right.size + 1

/-- The kind of the root, as far as drawing is concerned. -/
def kind : Expr → NodeKind
  | terminal _ => .constant
  | unary _ _ => .unaryOperator
  | binary _ _ _ => .binaryOperator

/-- The symbol or the operator of the root. -/
def label : Expr → String
  | terminal symbol => symbol
  | unary op _ | binary op _ _ => op

end Expr

/-- The nodes of a drawn tree, parents before children and left before right. -/
def Drawn.nodes : Drawn → List Drawn
  | leaf id symbol => [leaf id symbol]
  | unary id op operand => unary id op operand :: operand.nodes
  | binary id op left right => binary id op left right :: (left.nodes ++ right.nodes)

namespace Expr

theorem length_nodes (t : Expr) : t.nodes.length = t.size := by
  -- Each node is counted once: the root, and those of each operand a step further down.
  induction t with
  | terminal symbol => rfl
  | unary op operand ih =>
      rw [nodes, List.length_cons] at ih ⊢
      rw [descendants, under, List.length_map, List.length_cons, ih, size]
  | binary op left right ihl ihr =>
      rw [nodes, List.length_cons] at ihl ihr ⊢
      rw [descendants, under, under, List.length_append, List.length_map, List.length_map,
        List.length_cons, List.length_cons, ihl, ihr, size]

/-- Below the root a path begins with a step to an operand. -/
theorem mem_descendants_iff {t : Expr} {path : List Turn} {e : Expr} :
    (path, e) ∈ t.descendants ↔ ∃ turn rest operand, path = turn :: rest ∧
      t.operand? turn = some operand ∧ (rest, e) ∈ operand.nodes := by
  cases t with
  | terminal symbol =>
      -- A terminal has no operands.
      refine iff_of_false List.not_mem_nil ?_
      rintro ⟨_, _, _, _, hnone, _⟩
      exact absurd hnone nofun
  | unary op operand =>
      rw [descendants, mem_under_iff]
      constructor
      · rintro ⟨rest, rfl, hmem⟩
        exact ⟨.down, rest, operand, rfl, rfl, hmem⟩
      · rintro ⟨turn, rest, _, rfl, hturn, hmem⟩
        -- The turn has to be one that the node has.
        cases turn with
        | down =>
            cases hturn
            exact ⟨rest, rfl, hmem⟩
        | left | right => exact absurd hturn nofun
  | binary op left right =>
      rw [descendants, List.mem_append, mem_under_iff, mem_under_iff]
      constructor
      · rintro (⟨rest, rfl, hmem⟩ | ⟨rest, rfl, hmem⟩)
        · exact ⟨.left, rest, left, rfl, rfl, hmem⟩
        · exact ⟨.right, rest, right, rfl, rfl, hmem⟩
      · rintro ⟨turn, rest, _, rfl, hturn, hmem⟩
        cases turn with
        | down => exact absurd hturn nofun
        | left =>
            cases hturn
            exact Or.inl ⟨rest, rfl, hmem⟩
        | right =>
            cases hturn
            exact Or.inr ⟨rest, rfl, hmem⟩

/-- The nodes are the sub-expressions at the ends of paths. -/
theorem mem_nodes_iff {t : Expr} {path : List Turn} {e : Expr} :
    (path, e) ∈ t.nodes ↔ t.subtree? path = some e := by
  -- The induction is on the path, one turn at a time from the root.
  induction path generalizing t with
  | nil =>
      rw [nodes, List.mem_cons, mem_descendants_iff, subtree?, Option.some.injEq]
      constructor
      · -- A path below the root has a turn, so the empty path is the root's.
        rintro (heq | ⟨_, _, _, hnil, _⟩)
        · exact (Prod.mk.inj heq).2.symm
        · exact absurd hnil nofun
      · rintro rfl
        exact Or.inl rfl
  | cons turn rest ih =>
      rw [nodes, List.mem_cons, mem_descendants_iff, subtree?, Option.bind_eq_some_iff]
      constructor
      · rintro (heq | ⟨_, _, operand, hpath, hturn, hmem⟩)
        · -- The root's path is empty.
          exact absurd heq nofun
        · cases hpath
          exact ⟨operand, hturn, ih.mp hmem⟩
      · rintro ⟨operand, hturn, hsub⟩
        exact Or.inr ⟨turn, rest, operand, rfl, hturn, ih.mpr hsub⟩

end Expr

/-- The nodes with their addresses in place of their paths. -/
def addressed (id : String) (nodes : List (List Turn × Expr)) : List (String × Expr) :=
  nodes.map fun node => (address id node.1, node.2)

/-- Below an operand the addresses are those from the address of the operand. -/
theorem addressed_under (id : String) (turn : Turn) (nodes : List (List Turn × Expr)) :
    addressed id (under turn nodes) = addressed (address id [turn]) nodes := by
  rw [addressed, addressed, under, List.map_map]
  refine List.map_congr_left fun node _ => ?_
  exact congrArg (·, node.2) (address_append id [turn] node.1)

theorem addressed_nodes (id : String) (t : Expr) :
    addressed id t.nodes = (id, t) :: addressed id t.descendants := by
  rw [Expr.nodes, addressed, List.map_cons, address_nil]
  rfl

theorem addressed_unary (id op : String) (operand : Expr) :
    addressed id (Expr.unary op operand).descendants =
      addressed (Expr.operandOf id) operand.nodes :=
  addressed_under id .down operand.nodes

theorem addressed_binary (id op : String) (left right : Expr) :
    addressed id (Expr.binary op left right).descendants =
      addressed (Expr.leftOf id) left.nodes ++ addressed (Expr.rightOf id) right.nodes := by
  rw [Expr.descendants, addressed, List.map_append]
  exact congrArg₂ (· ++ ·) (addressed_under id .left left.nodes)
    (addressed_under id .right right.nodes)

/-- Every address below an operand begins with the step to it. -/
theorem exists_path_of_mem_addressed {id key : String} (turn : Turn)
    {nodes : List (List Turn × Expr)}
    (h : key ∈ (addressed (address id [turn]) nodes).map Prod.fst) :
    ∃ rest, key = address id (turn :: rest) := by
  rw [← addressed_under, addressed, under, List.map_map, List.map_map] at h
  rcases List.mem_map.mp h with ⟨node, _, rfl⟩
  exact ⟨node.1, rfl⟩

/-- An address below the root is not among the keys of the root alone. -/
theorem not_mem_keys_root (id : String) (t : Expr) (turn : Turn) (rest : List Turn) :
    address id (turn :: rest) ∉ (OrderedMap.empty.insert id t).keys := by
  rw [OrderedMap.mem_keys_insert, OrderedMap.keys_empty]
  rintro (hnone | hroot)
  · exact List.not_mem_nil hnone
  · have hpath := address_injective id (hroot.trans (address_nil id).symm)
    exact List.cons_ne_nil turn rest hpath

namespace Expr

/-- A drawn tree has a node for each node, drawn from its address on. -/
theorem nodes_draw (t : Expr) (id : String) :
    (t.draw id).nodes = (addressed id t.nodes).map fun entry => entry.2.draw entry.1 := by
  -- The operands are drawn from the addresses one letter on.
  induction t generalizing id with
  | terminal symbol =>
      rw [addressed_nodes]
      rfl
  | unary op operand ih =>
      rw [addressed_nodes, addressed_unary, List.map_cons, ← ih]
      rfl
  | binary op left right ihl ihr =>
      rw [addressed_nodes, addressed_binary, List.map_cons, List.map_append, ← ihl, ← ihr]
      rfl

/-- The index has an entry for each node, and none is lost. -/
theorem entries_nodeIndex (t : Expr) (id : String) :
    (t.nodeIndex id).entries = addressed id t.nodes := by
  induction t generalizing id with
  | terminal symbol =>
      rw [addressed_nodes]
      rfl
  | unary op operand ih =>
      have hfresh : ∀ key ∈ (operand.nodeIndex (operandOf id)).keys,
          key ∉ (OrderedMap.empty.insert id (unary op operand)).keys := by
        intro key hkey
        rw [OrderedMap.keys, ih] at hkey
        rcases exists_path_of_mem_addressed .down hkey with ⟨rest, rfl⟩
        exact not_mem_keys_root id _ .down rest
      rw [addressed_nodes, addressed_unary, ← ih, nodeIndex,
        OrderedMap.entries_union_of_disjoint hfresh]
      rfl
  | binary op left right ihl ihr =>
      have hleft : ∀ key ∈ (left.nodeIndex (leftOf id)).keys,
          ∃ rest, key = address id (.left :: rest) := by
        intro key hkey
        rw [OrderedMap.keys, ihl] at hkey
        exact exists_path_of_mem_addressed .left hkey
      have hright : ∀ key ∈ (right.nodeIndex (rightOf id)).keys,
          ∃ rest, key = address id (.right :: rest) := by
        intro key hkey
        rw [OrderedMap.keys, ihr] at hkey
        exact exists_path_of_mem_addressed .right hkey
      have hfreshLeft : ∀ key ∈ (left.nodeIndex (leftOf id)).keys,
          key ∉ (OrderedMap.empty.insert id (binary op left right)).keys := by
        intro key hkey
        rcases hleft key hkey with ⟨rest, rfl⟩
        exact not_mem_keys_root id _ .left rest
      -- The right operand comes last, and must be new to the left one as well.
      have hfreshRight : ∀ key ∈ (right.nodeIndex (rightOf id)).keys,
          key ∉ ((OrderedMap.empty.insert id (binary op left right)).union
            (left.nodeIndex (leftOf id))).keys := by
        intro key hkey
        rcases hright key hkey with ⟨rest, rfl⟩
        rw [OrderedMap.mem_keys_union]
        rintro (hroot | hother)
        · exact not_mem_keys_root id _ .right rest hroot
        · rcases hleft _ hother with ⟨rest', heq⟩
          cases address_injective id heq
      rw [addressed_nodes, addressed_binary, ← ihl, ← ihr, nodeIndex,
        OrderedMap.entries_union_of_disjoint hfreshRight,
        OrderedMap.entries_union_of_disjoint hfreshLeft, List.append_assoc]
      rfl

end Expr

/-- The edge that leads to the end of a path. -/
def edgeTo (id : String) (path : List Turn) : String × String :=
  (address id path.dropLast, address id path)

namespace Expr

theorem path_ne_nil_of_mem_descendants {t : Expr} {node : List Turn × Expr}
    (h : node ∈ t.descendants) : node.1 ≠ [] := by
  rcases mem_descendants_iff.mp h with ⟨turn, rest, _, hpath, _⟩
  rw [hpath]
  exact List.cons_ne_nil turn rest

/-- The edges below an operand are preceded by the edge to it. -/
theorem map_edgeTo_under (id : String) (turn : Turn) (e : Expr) :
    (under turn e.nodes).map (fun node => edgeTo id node.1) =
      (id, address id [turn]) ::
        e.descendants.map fun node => edgeTo (address id [turn]) node.1 := by
  rw [under, List.map_map, nodes, List.map_cons]
  refine congrArg₂ List.cons ?_ (List.map_congr_left fun node hnode => ?_)
  · exact congrArg (·, address id [turn]) (address_nil id)
  · have hne := path_ne_nil_of_mem_descendants hnode
    simp only [Function.comp, edgeTo, List.dropLast_cons_of_ne_nil hne, ← address_append,
      List.singleton_append]

/-- There is an edge to each node below the root. -/
theorem nodeEdges_eq_map (t : Expr) (id : String) :
    t.nodeEdges id = t.descendants.map fun node => edgeTo id node.1 := by
  -- The edges to the nodes of an operand start one letter further down.
  induction t generalizing id with
  | terminal symbol => rfl
  | unary op operand ih =>
      rw [nodeEdges, ih]
      exact (map_edgeTo_under id .down operand).symm
  | binary op left right ihl ihr =>
      rw [nodeEdges, ihl, ihr, descendants, List.map_append]
      exact (congrArg₂ (· ++ ·) (map_edgeTo_under id .left left)
        (map_edgeTo_under id .right right)).symm

/-- Going on from the end of a path is going along both. -/
theorem subtree?_append (t : Expr) (path path' : List Turn) :
    t.subtree? (path ++ path') = (t.subtree? path).bind fun e => e.subtree? path' := by
  induction path generalizing t with
  | nil => rfl
  | cons turn rest ih =>
      rw [List.cons_append, subtree?, subtree?]
      cases t.operand? turn with
      | none => rfl
      | some operand => exact ih operand

/-- A node below the root is an operand of the node that is one step up. -/
theorem exists_parent {t : Expr} {node : List Turn × Expr} (h : node ∈ t.descendants) :
    ∃ path turn parent, node.1 = path ++ [turn] ∧ t.subtree? path = some parent ∧
      parent.operand? turn = some node.2 := by
  -- The last turn leads from the parent to the node.
  have hpath := (List.dropLast_concat_getLast (path_ne_nil_of_mem_descendants h)).symm
  have hsub : t.subtree? node.1 = some node.2 :=
    mem_nodes_iff.mp (List.mem_cons_of_mem ([], t) h)
  rw [hpath, subtree?_append, Option.bind_eq_some_iff] at hsub
  rcases hsub with ⟨parent, hparent, hlast⟩
  rw [subtree?, Option.bind_eq_some_iff] at hlast
  rcases hlast with ⟨operand, hturn, heq⟩
  cases heq
  exact ⟨_, _, parent, hpath, hparent, hturn⟩

end Expr

section Roots

variable (e : Expr) (id : String)

theorem id_draw : (e.draw id).id = id := by
  cases e with
  | terminal symbol | unary op operand | binary op left right => rfl

theorem kind_draw : (e.draw id).kind = e.kind := by
  cases e with
  | terminal symbol | unary op operand | binary op left right => rfl

theorem symbol_draw : (e.draw id).symbol = e.label := by
  cases e with
  | terminal symbol | unary op operand | binary op left right => rfl

theorem map_id_children_draw : (e.draw id).children.map Drawn.id = e.childIds id := by
  cases e with
  | terminal symbol => rfl
  | unary op operand => simp only [Expr.draw, Drawn.children, List.map_cons, List.map_nil, id_draw,
      Expr.childIds]
  | binary op left right => simp only [Expr.draw, Drawn.children, List.map_cons, List.map_nil,
      id_draw, Expr.childIds]

end Roots

namespace Expr

theorem keys_nodeIndex (t : Expr) (id : String) :
    (t.nodeIndex id).keys = (t.draw id).nodes.map Drawn.id := by
  rw [OrderedMap.keys, entries_nodeIndex, nodes_draw, List.map_map]
  exact List.map_congr_left fun entry _ => (id_draw entry.2 entry.1).symm

/-- The key of a node is the address at the end of its path. -/
theorem get?_nodeIndex_eq_some_iff {t : Expr} {id key : String} {e : Expr} :
    (t.nodeIndex id).get? key = some e ↔
      ∃ path, key = address id path ∧ t.subtree? path = some e := by
  rw [OrderedMap.get?_eq_some_iff, entries_nodeIndex, addressed, List.mem_map]
  constructor
  · rintro ⟨⟨path, e'⟩, hmem, heq⟩
    cases heq
    exact ⟨path, rfl, mem_nodes_iff.mp hmem⟩
  · rintro ⟨path, rfl, hsub⟩
    exact ⟨(path, e), mem_nodes_iff.mpr hsub, rfl⟩

/-- The index and the edges keep step with the drawing. No two nodes of a drawn
    tree have the same address, and their addresses in order are the keys of the
    index, which has as many entries as there are nodes. Under a key stands the
    sub-expression at the end of the path that the root's address is followed by
    in the key, and the drawn node with that address is drawn from it: it shows
    its kind, its symbol, and the addresses of its operands. The edges lead to
    the nodes below the root, in the order of the keys, each from the node one
    letter up, of which it is an operand. -/
theorem nodeIndex_follows_drawing (t : Expr) (id : String) :
    ((t.draw id).nodes.map Drawn.id).Nodup ∧
      (t.nodeIndex id).keys = (t.draw id).nodes.map Drawn.id ∧
      (t.nodeIndex id).entries.length = t.size ∧
      (∀ (key : String) (e : Expr), (t.nodeIndex id).get? key = some e ↔
        ∃ path, key = address id path ∧ t.subtree? path = some e) ∧
      (∀ d ∈ (t.draw id).nodes, ∃ e, (t.nodeIndex id).get? d.id = some e ∧ d = e.draw d.id ∧
        d.kind = e.kind ∧ d.symbol = e.label ∧ d.children.map Drawn.id = e.childIds d.id) ∧
      (t.nodeEdges id).map Prod.snd = (t.nodeIndex id).keys.tail ∧
      ∀ edge ∈ t.nodeEdges id, edge.1.toList = edge.2.toList.dropLast ∧
        ∃ path turn parent operand, edge = (address id path, address id (path ++ [turn])) ∧
          t.subtree? path = some parent ∧ parent.operand? turn = some operand := by
  refine ⟨keys_nodeIndex t id ▸ OrderedMap.nodup_keys _, keys_nodeIndex t id, ?_,
    fun key e => get?_nodeIndex_eq_some_iff, ?_, ?_, ?_⟩
  · -- There is one entry for each node of the tree.
    rw [entries_nodeIndex, addressed, List.length_map, length_nodes]
  · -- Each node of the drawing is an entry, drawn from the sub-expression that it holds.
    intro d hd
    rw [nodes_draw, ← entries_nodeIndex] at hd
    rcases List.mem_map.mp hd with ⟨⟨key, e⟩, hentry, rfl⟩
    refine ⟨e, ?_, ?_, kind_draw e key, symbol_draw e key, ?_⟩
    · rw [id_draw]
      exact OrderedMap.get?_eq_some_iff.mpr hentry
    · rw [id_draw]
    · rw [id_draw]
      exact map_id_children_draw e key
  · -- The edges lead to the descendants, which are the nodes without the root.
    rw [OrderedMap.keys, entries_nodeIndex, addressed_nodes, nodeEdges_eq_map, addressed,
      List.map_cons, List.tail_cons, List.map_map, List.map_map]
    rfl
  · -- An edge takes the last letter off, and with it the last turn of the path.
    intro edge hedge
    rw [nodeEdges_eq_map] at hedge
    rcases List.mem_map.mp hedge with ⟨node, hnode, rfl⟩
    rcases exists_parent hnode with ⟨path, turn, parent, hpath, hparent, hturn⟩
    have hedge : edgeTo id node.1 = (address id path, address id (path ++ [turn])) := by
      rw [edgeTo, hpath, List.dropLast_concat]
    refine ⟨?_, path, turn, parent, node.2, hedge, hparent, hturn⟩
    rw [hedge, toList_address, toList_address, List.map_append, ← List.append_assoc]
    exact (List.dropLast_concat).symm

/-- A root whose address ends in the letter of a step. -/
example : (nodeIndex "L" (.connect .conj (.symbol 'a') (symbol 'b').negation)).keys =
    ["L", "LL", "LR", "LRD"] := rfl

end Expr

end BoolCalc
