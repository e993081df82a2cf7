namespace MonkeyFront

/-- The pieces of a text between the characters `mark`; `started` is the current one so far,
reversed. -/
def piecesFrom (mark : Char) (started : List Char) : List Char → List (List Char)
  | [] => [started.reverse]
  | c :: rest =>
    if c = mark then started.reverse :: piecesFrom mark [] rest
    else piecesFrom mark (c :: started) rest

/-- The pieces of a text between the characters `mark`. -/
def pieces (mark : Char) (text : List Char) : List (List Char) := piecesFrom mark [] text

end MonkeyFront
