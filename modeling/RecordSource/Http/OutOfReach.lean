import RecordSource.Http.Host
import RecordSource.Json.Read
import RecordSource.Text.Cut

/-!
The host that a command finds where there is no network: no message gets through to it, and what is said of that names
the address in its normal form, with the scheme and the host in small letters, without the port that the scheme stands
for, the path without `.` and `..`, and everything that may not stand in an address written as the hexadecimal numbers
of its UTF-8 bytes. Every address counts as one here. Nothing that is proved of calls rests on these words.
-/
namespace RecordSource.Http

namespace Url

def hexDigit (n : Nat) : Char := if n < 10 then Char.ofNat (48 + n) else Char.ofNat (55 + n)

/-- The bytes of a character, each as a percent sign and two hexadecimal digits. -/
def percent (c : Char) : List Char :=
  (String.singleton c).toUTF8.toList.flatMap fun b => ['%', hexDigit (b.toNat / 16), hexDigit (b.toNat % 16)]

def encode (reserved : List Char) (cs : List Char) : List Char :=
  cs.flatMap fun c => if c ≤ '\x1f' ∨ '\x7e' < c ∨ c ∈ reserved then percent c else [c]

def inPath : List Char := [' ', '"', '<', '>', '`', '#', '?', '\x7b', '\x7d']

def inQuery : List Char := [' ', '"', '#', '<', '>', '\x27']

def inFragment : List Char := [' ', '"', '<', '>', '`']

/-- A segment that stands for the directory itself. -/
def isDot (s : List Char) : Bool := s == ['.'] || s.map Char.toLower == ['%', '2', 'e']

/-- A segment that stands for the directory above. -/
def isDoubleDot (s : List Char) : Bool :=
  [['.', '.'], ['.', '%', '2', 'e'], ['%', '2', 'e', '.'], ['%', '2', 'e', '%', '2', 'e']].contains (s.map Char.toLower)

/-- Segments without dots, those done the latest first. A dot at the end leaves an empty segment. -/
def resolve (done : List (List Char)) : List (List Char) → List (List Char)
  | [] => done.reverse
  | [s] =>
    if isDoubleDot s then ([] :: done.drop 1).reverse
    else if isDot s then ([] :: done).reverse
    else (encode inPath s :: done).reverse
  | s :: t :: rest =>
    if isDoubleDot s then resolve (done.drop 1) (t :: rest)
    else if isDot s then resolve done (t :: rest)
    else resolve (encode inPath s :: done) (t :: rest)

/-- The normal form of what follows the host, which begins with a slash. -/
def normalTail (tail : List Char) : List Char :=
  let tail := tail.filter fun c => c != '\t' && c != '\n' && c != '\r'
  let (beforeFragment, fragment) := (tail.takeWhile (· != '#'), tail.dropWhile (· != '#'))
  let (path, query) := (beforeFragment.takeWhile (· != '?'), beforeFragment.dropWhile (· != '?'))
  let path := (path.drop 1).map fun c => if c = '\\' then '/' else c
  '/' :: (Text.joinWith ['/'] (resolve [] (Text.pieces '/' path)) ++
    (match query with
      | [] => []
      | _ :: q => '?' :: encode inQuery q) ++
    (match fragment with
      | [] => []
      | _ :: f => '#' :: encode inFragment f))

/-- The ports that schemes stand for. -/
def ports : List (List Char × List Char) := [("http".toList, "80".toList), ("https".toList, "443".toList)]

/-- The normal form of a host under a scheme. -/
def normalHost (scheme host : List Char) : List Char :=
  let port := (host.reverse.takeWhile Char.isDigit).reverse
  let beforePort := host.take (host.length - port.length)
  let host :=
    if beforePort.getLast? = some ':' ∧ (port = [] ∨ ports.lookup scheme = some port) then beforePort.dropLast else host
  host.map Char.toLower

/-- The normal form of an address with a scheme and a host. -/
def normal (url : String) : String :=
  let cs := (url.toList.reverse.dropWhile (· ≤ ' ')).reverse
  let scheme := (cs.takeWhile (· != ':')).map Char.toLower
  let rest := cs.drop (scheme.length + 3)
  let host := rest.takeWhile fun c => c != '/' && c != '?' && c != '#' && c != '\\'
  let tail := rest.drop host.length
  let tail := match tail with
    | c :: _ => if c = '/' ∨ c = '\\' then tail else '/' :: tail
    | [] => ['/']
  String.ofList (scheme ++ "://".toList ++ normalHost scheme host ++ normalTail tail)

example : normal "HTTP://Host:80/a/../b c" = "http://host/b%20c" := by decide +kernel

end Url

/-- Reads a body, or says in the same words of each that it cannot. -/
def readBody (body : String) : Except Trouble Json :=
  match Json.parse? body with
  | some v => .ok v
  | none => .error { isDecode := true, text := "error decoding response body" }

/-- No message gets through. -/
def Host.outOfReach {σ : Type} : Host σ where
  unsendable? _ := none
  send state m := (.failed { text := "error sending request for url (" ++ Url.normal m.url ++ ")" }, state)
  json := readBody

end RecordSource.Http
