import WaCore.Binary.Jid

/-!
# Nodes

The tree the codec carries (`node.rs`): a tag, a list of attributes and an
optional content.  The source has the tree twice, owned (`Node`) and borrowed
(`NodeRef`), with an encoder and a size plan for each, so the model has it
twice as well.  `AttrsRef` is its slice: an empty one and no attributes at all
are the same to every reader.
-/

namespace WaCore.Binary

/-! ## Owned nodes -/

inductive NodeValue where
  | string (s : String)
  | jid (j : Jid)
  deriving DecidableEq, Repr

mutual

structure Node where
  tag : String
  attrs : List (String × NodeValue)
  content : Option NodeContent

inductive NodeContent where
  | bytes (b : Bytes)
  | string (s : String)
  | nodes (nodes : List Node)

end

/-! ## Borrowed nodes -/

inductive ValueRef where
  | string (s : String)
  | jid (j : Jid)
  deriving DecidableEq, Repr

mutual

structure NodeRef where
  tag : String
  attrs : List (String × ValueRef)
  content : Option NodeContentRef

inductive NodeContentRef where
  | bytes (b : Bytes)
  | string (s : String)
  | nodes (nodes : List NodeRef)

end

/-! ## Borrowing -/

def NodeValue.asValueRef : NodeValue → ValueRef
  | .string s => .string s
  | .jid j => .jid j

mutual

def Node.asNodeRef : Node → NodeRef
  | ⟨tag, attrs, content⟩ =>
    ⟨tag, attrs.map fun (k, v) => (k, v.asValueRef), asContentRef? content⟩

def NodeContent.asContentRef : NodeContent → NodeContentRef
  | .bytes b => .bytes b
  | .string s => .string s
  | .nodes nodes => .nodes (asNodeRefs nodes)

def asContentRef? : Option NodeContent → Option NodeContentRef
  | none => none
  | some content => some content.asContentRef

def asNodeRefs : List Node → List NodeRef
  | [] => []
  | node :: nodes => node.asNodeRef :: asNodeRefs nodes

end

/-! ## Nesting -/

mutual

/-- How many levels of nodes a node has; a node without children has one. -/
def Node.depth : Node → Nat
  | ⟨_, _, content⟩ => 1 + contentDepth content

def contentDepth : Option NodeContent → Nat
  | none => 0
  | some content => content.depth

def NodeContent.depth : NodeContent → Nat
  | .bytes _ => 0
  | .string _ => 0
  | .nodes nodes => nodesDepth nodes

def nodesDepth : List Node → Nat
  | [] => 0
  | node :: nodes => max node.depth (nodesDepth nodes)

end

end WaCore.Binary
