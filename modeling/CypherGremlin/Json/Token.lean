import CypherGremlin.Json.Form
import CypherGremlin.Token

/-!
# Tokens as JSON

A token without an argument is its name; any other is an object with one field, from the name to the
argument.
-/

namespace CypherGremlin

open Json

def Token.toJson (token : Token) : Json :=
  match token with
  | .pathStart name | .pathEdge name => variant token.title (.string name)
  | .generated n | .unnamed n | .freshId n => variant token.title (.int n.toNat)
  | _ => .string token.title

def Token.ofJson? (j : Json) : Option Token :=
  choice? (Token.constants.map fun token => (token.title, token)) j <|> do
    let (tag, content) ← variant? j
    let content ← content
    match tag with
    | "PathStart" => content.asString?.map .pathStart
    | "PathEdge" => content.asString?.map .pathEdge
    | "Generated" => content.asUInt32?.map .generated
    | "Unnamed" => content.asUInt32?.map .unnamed
    | "FreshId" => content.asUInt32?.map .freshId
    | _ => none

end CypherGremlin
