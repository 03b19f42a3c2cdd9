import CypherGremlin.Text.Basic

/-!
# What the screen shows

Output is a list of lines.  Parts of them have a role and are painted by it, if the screen takes
colours.
-/

namespace CypherGremlin

/-- When to paint. -/
inductive ColorChoice where
  /-- If the output is a terminal. -/
  | auto
  | always
  | never
deriving DecidableEq, Repr, Inhabited

namespace ColorChoice

def all : List ColorChoice := [auto, always, never]

def text : ColorChoice → String
  | auto => "auto"
  | always => "always"
  | never => "never"

end ColorChoice

/-- What a part of a line is for. -/
inductive TextRole where
  | heading
  | key
  | value
  | bullet
  | error
deriving DecidableEq, Repr

def TextRole.colours : TextRole → String
  | heading => "1;35"
  | key => "1;94"
  | value => "37"
  | bullet => "94"
  | error => "1;31"

structure Screen where
  isPainted : Bool := false
deriving DecidableEq, Repr

namespace Screen

def paint (screen : Screen) (role : TextRole) (text : String) : String :=
  if screen.isPainted then "\x1b[" ++ role.colours ++ "m" ++ text ++ "\x1b[0m" else text

/-- The line above a group of lines. -/
def heading (screen : Screen) (title : String) : String := screen.paint .heading ("▸ " ++ title)

/-- A text with blanks in front, so that it has at least the given length. -/
def alignRight (width : Nat) (text : String) : String :=
  String.ofList (List.replicate (width - text.length) ' ') ++ text

/-- Keys with their values, under a title.  Without rows there is no title either. -/
def sectionLines (screen : Screen) (title : String) (rows : List (String × String)) : List String :=
  if rows.isEmpty then []
  else
    let width := (rows.map (·.1.length)).foldl max 0
    screen.heading title :: rows.map fun (key, value) =>
      "  " ++ screen.paint .key (alignRight width key ++ ":") ++ " " ++ screen.paint .value value

def listLines (screen : Screen) (title : String) (entries : List String) : List String :=
  let bullet := if screen.isPainted then screen.paint .bullet "•" else "-"
  screen.heading title ::
    if entries.isEmpty then ["  (none)"] else entries.map fun entry =>
      "  " ++ bullet ++ " " ++ entry

def errorLine (screen : Screen) (message : String) : String :=
  screen.paint .error "error:" ++ " " ++ message

end Screen

def textOfLines (lines : List String) : String := String.join (lines.map (· ++ "\n"))

end CypherGremlin
