import Mathlib.Data.List.DropRight

/-! `ini_parse` (ini.c) with the options of ini.h. A file is its bytes, or none where it
cannot be opened. -/

namespace Yolov5Rknn.Ini

def maxSection : Nat := 50
def maxName : Nat := 50
def iniMaxLine : Nat := 200

/-- `isspace` of the C locale. -/
def isspace (c : UInt8) : Bool := c == 32 || (9 ≤ c && c ≤ 13)

def rstrip (s : List UInt8) : List UInt8 := s.rdropWhile isspace

def lskip (s : List UInt8) : List UInt8 := s.dropWhile isspace

/-- What lies before and after the pointer returned, for `was_space` at the start of `s`. -/
def findCharsOrComment (chars : List UInt8) (wasSpace : Bool) : List UInt8 → List UInt8 × List UInt8
  | [] => ([], [])
  | c :: rest =>
    if chars.contains c || (wasSpace && c == 59) then ([], c :: rest)
    else
      let (before, after) := findCharsOrComment chars (isspace c) rest
      (c :: before, after)

def strncpy0 (src : List UInt8) (size : Nat) : List UInt8 := src.take (size - 1)

/-- The arguments of one call of the handler. -/
structure Call where
  sectionName : List UInt8
  name : List UInt8
  value : List UInt8
  deriving DecidableEq

/-- The locals of `ini_parse_stream` between two lines, and what `user` points to. -/
structure Parser (User : Type) where
  lineno : Nat
  sectionName : List UInt8
  prevName : List UInt8
  error : Nat
  user : User
  deriving DecidableEq

/-- What a line is taken for. -/
inductive Meaning where
  | nothing
  | sectionStart (sectionName : List UInt8)
  | continuation (value : List UInt8)
  | pair (name value : List UInt8)
  | bad
  deriving DecidableEq

/-- The line without its byte order mark, and whether it had one. -/
def skipBom (first : Bool) (line : List UInt8) : List UInt8 × Bool :=
  if first && [0xEF, 0xBB, 0xBF].isPrefixOf line then (line.drop 3, true) else (line, false)

/-- The value of a line after its name, or of a continuation: it ends at an inline comment. -/
def cutComment (s : List UInt8) : List UInt8 := (findCharsOrComment [] false s).1

/-- The cascade over one line. `inName` is `*prev_name`. -/
def meaning (first inName : Bool) (line : List UInt8) : Meaning :=
  let (text, bom) := skipBom first line
  match lskip (rstrip text) with
  -- `strchr` also finds the terminator
  | [] => .nothing
  | c :: rest =>
    if c = 59 ∨ c = 35 then .nothing
    -- `start > line`
    else if inName && (bom || text.head?.any isspace) then .continuation (rstrip (cutComment (c :: rest)))
    else if c = 91 then
      match findCharsOrComment [93] false rest with
      | (inside, 93 :: _) => .sectionStart inside
      | _ => .bad
    else
      match findCharsOrComment [61, 58] false (c :: rest) with
      | (name, 61 :: value) | (name, 58 :: value) => .pair (rstrip name) (rstrip (lskip (cutComment value)))
      | _ => .bad

variable {User : Type}

def Parser.fail (parser : Parser User) : Parser User :=
  { parser with error := if parser.error = 0 then parser.lineno else parser.error }

/-- `HANDLER`: the first line it refuses is the error, unless there was one before. -/
def Parser.call (handler : User → Call → User × Bool) (name value : List UInt8) (parser : Parser User) :
    Parser User :=
  let (user, accepted) := handler parser.user ⟨parser.sectionName, name, value⟩
  if accepted then { parser with user } else Parser.fail { parser with user }

/-- The body of the loop. `line` is the buffer up to its terminator. -/
def parseLine (handler : User → Call → User × Bool) (line : List UInt8) (parser : Parser User) : Parser User :=
  let parser := { parser with lineno := parser.lineno + 1 }
  match meaning (parser.lineno == 1) (parser.prevName != []) line with
  | .nothing => parser
  | .sectionStart name => { parser with sectionName := strncpy0 name maxSection, prevName := [] }
  | .continuation value => parser.call handler parser.prevName value
  | .pair name value => Parser.call handler name value { parser with prevName := strncpy0 name maxName }
  | .bad => parser.fail

/-- The buffers that successive calls of `fgets` fill: up to a newline, or `left` bytes. -/
def fgets (size : Nat) : Nat → List UInt8 → List UInt8 → List (List UInt8)
  | _, buffer, [] => if buffer = [] then [] else [buffer]
  | left, buffer, c :: stream =>
    if c = 10 ∨ left ≤ 1 then (buffer ++ [c]) :: fgets size size [] stream
    else fgets size (left - 1) (buffer ++ [c]) stream

/-- The lines the parser sees. -/
def bufferedLines (stream : List UInt8) : List (List UInt8) :=
  (fgets (iniMaxLine - 1) (iniMaxLine - 1) [] stream).map (·.takeWhile (· ≠ 0))

def Parser.start (user : User) : Parser User where
  lineno := 0
  sectionName := []
  prevName := []
  error := 0
  user := user

def iniParseStream (handler : User → Call → User × Bool) (user : User) (stream : List UInt8) : Parser User :=
  (bufferedLines stream).foldl (fun parser line => parseLine handler line parser) (Parser.start user)

/-- The return value and what the handler made of `user`. -/
def iniParse (handler : User → Call → User × Bool) (user : User) (file : Option (List UInt8)) : Int × User :=
  match file with
  | none => (-1, user)
  | some stream =>
    let parser := iniParseStream handler user stream
    (parser.error, parser.user)

end Yolov5Rknn.Ini
