import RecipeClient.Text.Blank
import RecipeClient.Text.Percent
import RecipeClient.Text.Split

/-!
# Targets

What stands in a message as the thing asked for: the path and the query, resolved from the text
that follows the server's name in an address.

* Tabs and line ends are dropped, and so are blanks and control characters at the end.
* A backslash counts as a slash. The segments `.` and `..` are resolved, also in their escaped
  spellings.
* Characters that may not stand in a path or query are escaped; what is escaped already stays.
* What follows `#` is for the reader of the answer and is not sent.
-/

namespace RecipeClient.Wire

open Text (trimEndWhile)

/-- Whether a character is an ASCII control character. -/
def isControl (c : Char) : Bool := c.toNat < 0x20 || c.toNat == 0x7F

/-- Whether a character stands for itself in a path. -/
def standsInPath (c : Char) : Bool :=
  !isControl c && !(" \"<>`#?\x7b\x7d".toList.contains c)

/-- Whether a character stands for itself in a query. -/
def standsInQuery (c : Char) : Bool := !isControl c && !(" \"#<>'".toList.contains c)

/-- A text with the characters escaped that do not stand for themselves. -/
def escape (keep : Char → Bool) (cs : List Char) : List Char :=
  (Text.Percent.utf8 cs).flatMap (Text.Percent.encodeByte keep)

/-- Whether a character separates the segments of a path. -/
def isSlash (c : Char) : Bool := c == '/' || c == '\\'

/-- How many dots a segment has, if it consists of dots, some of them escaped. -/
def dots? : List Char → Option Nat
  | [] => some 0
  | '.' :: cs => (dots? cs).map (· + 1)
  | '%' :: '2' :: e :: cs => if e == 'e' || e == 'E' then (dots? cs).map (· + 1) else none
  | _ => none

/-- The segments that remain when dots are resolved, after those that are `done`; a path that ends
in dots ends in an empty segment. -/
def resolve (done : List (List Char)) : List (List Char) → List (List Char)
  | [] => done
  | s :: rest =>
    match dots? s with
    | some 1 => resolve (if rest.isEmpty then done ++ [[]] else done) rest
    | some 2 => resolve (if rest.isEmpty then done.dropLast ++ [[]] else done.dropLast) rest
    | _ => resolve (done ++ [s]) rest

/-- The path that is sent for the text of a path, without the slash that it may begin with. -/
def pathOf (cs : List Char) : List Char :=
  (resolve [] ((Text.split isSlash cs).map (escape standsInPath))).flatMap ('/' :: ·)

/-- The path and the query that are sent for the text behind the server's name, unless that text
would change the name. -/
def target? (behind : List Char) : Option String :=
  let cs := (trimEndWhile (fun c => c.toNat ≤ 0x20) behind).filter fun c =>
    c != '\t' && c != '\n' && c != '\r'
  let address := cs.takeWhile (· != '#')
  let path := address.takeWhile (· != '?')
  let query := escape standsInQuery (address.dropWhile (· != '?'))
  match path with
  | [] => some (String.ofList ('/' :: query))
  | c :: rest => if isSlash c then some (String.ofList (pathOf rest ++ query)) else none

end RecipeClient.Wire
