/-!
# Paths

A path is a text of segments that slashes separate. Empty segments do not count, so `/a//b/` and
`a/b` name the same place, whose normal form `/a/b` has one slash before every segment.

* `pieces_ne_nil`: a text always has a piece, if only an empty one.
-/

namespace Coap.Path

/-- The pieces of a text between its slashes, empty ones included. -/
def pieces : List Char → List (List Char)
  | [] => [[]]
  | c :: rest =>
    if c = '/' then [] :: pieces rest
    else
      match pieces rest with
      | [] => [[c]]
      | piece :: others => (c :: piece) :: others

/-- The segments of a path: its pieces that are not empty. -/
def segments (path : String) : List String :=
  ((pieces path.toList).filter fun piece => !piece.isEmpty).map String.ofList

/-- The path of some segments: one slash before each, and a single slash if there is none. -/
def join (segments : List String) : String :=
  "/" ++ "/".intercalate segments

/-- The normal form of a path. -/
def normal (path : String) : String := join (segments path)

/-- A text always has a piece, if only an empty one. -/
theorem pieces_ne_nil (text : List Char) : pieces text ≠ [] := by
  fun_induction pieces text <;> simp_all

end Coap.Path
