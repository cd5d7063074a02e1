import Barrage.Json
import Barrage.Pattern.Basic

/-!
Patterns as JSON: the nodes with their links, in document order. What a node does not have is no
member.
-/

set_option autoImplicit false

namespace Barrage

def memberIf {α : Type} (key : String) (f : α → Json) : Option α → List (String × Json)
  | some a => [(key, f a)]
  | none => []

def Node.json (n : Node) (l : NodeLinks) : Json :=
  let id (i : NodeId) : Json := .number i
  .object ([("kind", .string n.kind.name), ("node_type", .string n.policy.name)]
    ++ memberIf "label" .string n.label?
    ++ memberIf "pattern_name" .string n.name?
    ++ (if n.expression.isEmpty then []
      else [("expression", .object [("source", .string n.expression.source)])])
    ++ [("children", .array (n.children.map id))]
    ++ memberIf "parent" id n.parent?
    ++ memberIf "resolved" id l.target?
    ++ memberIf "bullet_description" id l.bullet?
    ++ memberIf "parent_repeat" id l.repeat?)

namespace Pattern

def nodesJson (p : Pattern) : List Json :=
  p.tree.nodes.toList.mapIdx fun i n => n.json ((p.links.at? i).getD {})

def json (p : Pattern) : Json :=
  .object ([("tree", .object [("nodes", .array p.nodesJson)]),
      ("orientation", .string p.orientation.name)]
    ++ memberIf "filename" (fun f => .string f.text) p.file?)

end Pattern

end Barrage
