import Phosphoric.Cards.Registry
import Phosphoric.Lib.Tokens
import Mathlib.Data.List.DropRight

/-!
# The HTTP API

`url_decode`, `get_param`, `sandbox_path`, `route` and the request line of `handle_request`
(`src/network/http_api.c`), which make a line of text of a request, and `control_dispatch`
(`src/control.c`), which cuts the line into words for a command.

**The route.** A branch of `route` is a guard on the path and the formats it writes, the first whose
parameters are all there being the one written. The formats put values after the command, each
after a space.

**Theorem (`httpRequest_exact_iff`).** Of any request, the line is cut into the command and the
arguments the format names, and its file is inside the root, exactly if every value that stands
for one word is one word and the line does not end in a line end.
-/

namespace Phosphoric

open Tokens (IsWord strtok strtoks tokens weight weights)

/-! ## Parameters -/

/-- `isxdigit`. -/
def isXDigit (c : Byte) : Bool :=
  (0x30 ≤ c && c ≤ 0x39) || (0x41 ≤ c && c ≤ 0x46) || (0x61 ≤ c && c ≤ 0x66)

/-- `HEXV`. -/
def hexV (c : Byte) : Byte := if c ≤ 0x39 then c - 0x30 else (c ||| 0x20) - 0x61 + 10

/-- What `url_decode` writes. -/
def urlDecodeBytes : List Byte → List Byte
  | [] => []
  | r :: s =>
    if r = 0x2B then 0x20 :: urlDecodeBytes s
    else
      match s with
      | hi :: lo :: rest =>
        if r = 0x25 ∧ isXDigit hi ∧ isXDigit lo then
          (hexV hi <<< 4 ||| hexV lo) :: urlDecodeBytes rest
        else r :: urlDecodeBytes (hi :: lo :: rest)
      | s => r :: urlDecodeBytes s

/-- `url_decode`: the string it leaves, which a `%00` ends. -/
def urlDecode (s : CStr) : CStr := (urlDecodeBytes s).takeWhile (· ≠ 0)

/-- `get_param`. -/
def getParam (qs key : CStr) (outsz : Nat) : Option CStr :=
  (qs.splitOn 0x26).findSome? fun pair =>
    if pair.takeWhile (· ≠ 0x3D) = key ∧ 0x3D ∈ pair then
      some (urlDecode ((pair.dropWhile (· ≠ 0x3D)).tail.take (outsz - 1)))
    else none

/-- `HTTP_ROOT_MAX`. -/
abbrev httpRootMax : Nat := 1024

/-- `HTTP_CMD_MAX`. -/
abbrev httpCmdMax : Nat := 2048

/-- `sandbox_path`. -/
def sandboxPath (root rel : CStr) (outsz : Nat) : Option CStr :=
  if rel = [] ∨ rel.head? = some 0x2F ∨ strstr rel (cstr "..") = true then none
  else if (root ++ 0x2F :: rel).length < outsz then some (root ++ 0x2F :: rel)
  else none

/-! ## The route -/

/-- What a format puts in the place of a `%s`: a text of its own, a parameter in a buffer of `size`
bytes, a file in the sandbox, or a piece of the path. -/
inductive HttpArg
  | lit (text : CStr)
  | param (key : CStr) (size : Nat)
  | file (key : CStr)
  | text (piece : CStr)

def HttpArg.value (root src : CStr) : HttpArg → Option CStr
  | .lit s => some s
  | .param key size => getParam src key size
  | .file key => (getParam src key httpRootMax).bind fun rel => sandboxPath root rel httpRootMax
  | .text piece => some piece

/-- A command, the words after it, and what is to reach it as the rest of the line. -/
structure HttpFormat where
  verb : CStr
  words : List HttpArg
  tail : Option HttpArg

/-- A command with its values. -/
structure HttpCommand where
  verb : CStr
  words : List CStr
  tail : Option CStr
  deriving DecidableEq

/-- The values of the format, if they are all there. -/
def HttpFormat.eval (root src : CStr) (f : HttpFormat) : Option HttpCommand :=
  match f.words.mapM (HttpArg.value root src), f.tail with
  | some words, none => some { verb := f.verb, words := words, tail := none }
  | some words, some tail =>
    (tail.value root src).map fun tail => { verb := f.verb, words := words, tail := some tail }
  | none, _ => none

/-- `strncmp(path, start, strlen(start)) == 0`. -/
def startsWith (path : CStr) (start : String) : Bool := (cstr start).isPrefixOf path

/-- The branches of `GET`. -/
def httpGet (path : CStr) : List (Bool × List HttpFormat) :=
  [(path == cstr "/", []),
    (path == cstr "/hello", [⟨cstr "hello", [], none⟩]),
    (path == cstr "/regs", [⟨cstr "regs", [], none⟩]),
    (path == cstr "/mem",
      [⟨cstr "read", [.param (cstr "addr") 32, .param (cstr "len") 32],
          some (.param (cstr "bank") 16)⟩,
        ⟨cstr "read", [.param (cstr "addr") 32, .param (cstr "len") 32], none⟩]),
    (startsWith path "/peek/", [⟨cstr "peek", [.text (path.drop 6)], none⟩]),
    (path == cstr "/break", [⟨cstr "break-list", [], none⟩]),
    (path == cstr "/watch", [⟨cstr "watch-list", [], none⟩]),
    (path == cstr "/disasm",
      [⟨cstr "disasm", [.param (cstr "addr") 32, .param (cstr "n") 32], none⟩]),
    (path == cstr "/trace", [⟨cstr "trace", [.lit (cstr "status")], none⟩]),
    (path == cstr "/watch-region", [⟨cstr "watch-region-list", [], none⟩]),
    (path == cstr "/stuck-bits", [⟨cstr "stuck-bits", [], none⟩])]

/-- The commands of `/exec/`. -/
def httpExec : List CStr :=
  [cstr "step", cstr "next", cstr "step-out", cstr "continue", cstr "pause"]

/-- The branches of `POST`. -/
def httpPost (path : CStr) : List (Bool × List HttpFormat) :=
  [(path == cstr "/reset", [⟨cstr "reset", [], none⟩]),
    (path == cstr "/nmi", [⟨cstr "nmi", [], none⟩]),
    (path == cstr "/keys",
      [⟨cstr "keys", [], some (.param (cstr "text") (httpCmdMax - 16))⟩]),
    (startsWith path "/exec/",
      (httpExec.filter (· == path.drop 6)).map fun verb => ⟨verb, [], none⟩),
    (path == cstr "/mem",
      [⟨cstr "write", [.param (cstr "addr") 32],
        some (.param (cstr "bytes") (httpCmdMax - 64))⟩]),
    (path == cstr "/tape", [⟨cstr "load-tap", [.file (cstr "path")], none⟩]),
    (startsWith path "/disk/" && path.length == 7,
      [⟨cstr "load-disk", [.text (path.drop 6), .file (cstr "path")], none⟩]),
    (path == cstr "/break",
      [⟨cstr "break", [.param (cstr "addr") 32, .lit (cstr "if")],
          some (.param (cstr "if") 160)⟩,
        ⟨cstr "break", [.param (cstr "addr") 32], none⟩]),
    (path == cstr "/watch",
      [⟨cstr "watch", [.param (cstr "addr") 32, .param (cstr "mode") 8], none⟩,
        ⟨cstr "watch", [.param (cstr "addr") 32], none⟩]),
    (path == cstr "/raster", [⟨cstr "raster", [.param (cstr "line") 32], none⟩]),
    (path == cstr "/set",
      [⟨cstr "set", [.lit (cstr "via"), .param (cstr "via") 16], some (.param (cstr "val") 32)⟩,
        ⟨cstr "set", [.param (cstr "reg") 16, .param (cstr "val") 32], none⟩]),
    (path == cstr "/hunt",
      [⟨cstr "hunt", [.param (cstr "op") 16, .param (cstr "val") 32], none⟩,
        ⟨cstr "hunt", [.param (cstr "op") 16], none⟩,
        ⟨cstr "hunt", [], none⟩]),
    (path == cstr "/sym",
      [⟨cstr "load-sym", [.file (cstr "path"), .param (cstr "group") 8], none⟩,
        ⟨cstr "load-sym", [.file (cstr "path")], none⟩]),
    (path == cstr "/sym/group",
      [⟨cstr "sym-group", [.param (cstr "group") 8, .param (cstr "enabled") 8], none⟩]),
    (path == cstr "/save",
      [⟨cstr "save-mem",
        [.file (cstr "path"), .param (cstr "addr") 32, .param (cstr "len") 32], none⟩]),
    (path == cstr "/load",
      [⟨cstr "load-mem", [.file (cstr "path"), .param (cstr "addr") 32], none⟩]),
    (path == cstr "/trace",
      [⟨cstr "trace", [.lit (cstr "start")], some (.param (cstr "spec") 192)⟩,
        ⟨cstr "trace", [.lit (cstr "start")], some (.lit (cstr "now"))⟩]),
    (path == cstr "/watch-region",
      [⟨cstr "watch-region", [.param (cstr "start") 32, .param (cstr "end") 32],
          some (.param (cstr "flags") 8)⟩,
        ⟨cstr "watch-region", [.param (cstr "start") 32, .param (cstr "end") 32], none⟩]),
    (path == cstr "/stuck-bits",
      [⟨cstr "stuck-bits", [.param (cstr "zero") 8, .param (cstr "one") 8], none⟩]),
    (path == cstr "/trace/stop", [⟨cstr "trace", [.lit (cstr "stop")], none⟩]),
    (path == cstr "/trace/save",
      [⟨cstr "trace", [.lit (cstr "save")], some (.file (cstr "path"))⟩]),
    (path == cstr "/state/save", [⟨cstr "state-save", [.file (cstr "path")], none⟩]),
    (path == cstr "/state/load", [⟨cstr "state-load", [.file (cstr "path")], none⟩])]

/-- The branches of `DELETE`. -/
def httpDelete (path : CStr) : List (Bool × List HttpFormat) :=
  [(path == cstr "/tape", [⟨cstr "eject-tape", [], none⟩]),
    (startsWith path "/disk/" && path.length == 7,
      [⟨cstr "eject-disk", [.text (path.drop 6)], none⟩]),
    (startsWith path "/break/" && decide (7 < path.length),
      [⟨cstr "unbreak", [.text ((path.drop 7).take 15)], none⟩]),
    (startsWith path "/watch/" && decide (7 < path.length),
      [⟨cstr "unwatch", [.text ((path.drop 7).take 15)], none⟩]),
    (startsWith path "/raster/" && decide (8 < path.length),
      [⟨cstr "unraster", [.text ((path.drop 8).take 15)], none⟩]),
    (path == cstr "/trace", [⟨cstr "trace", [.lit (cstr "off")], none⟩]),
    (path == cstr "/watch-region", [⟨cstr "watch-region-clear", [], none⟩])]

/-- The formats of the first branch whose guard holds; none if it answers by itself. -/
def httpBranch (branches : List (Bool × List HttpFormat)) : List HttpFormat :=
  (branches.find? Prod.fst).elim [] Prod.snd

/-- `route`: the command it writes, if it writes one. -/
def httpRoute (root method path : CStr) (query : Option CStr) (body : CStr) :
    Option HttpCommand :=
  if method = cstr "GET" then
    (httpBranch (httpGet path)).findSome? (HttpFormat.eval root (query.getD []))
  else if method = cstr "POST" then
    (httpBranch (httpPost path)).findSome? (HttpFormat.eval root body)
  else if method = cstr "DELETE" then
    (httpBranch (httpDelete path)).findSome? (HttpFormat.eval root [])
  else none

/-- `isspace`. -/
def isSpace (c : Byte) : Bool := c == 0x20 || (0x09 ≤ c && c ≤ 0x0D)

/-- `%Ns` of `sscanf`: the word, if there is one, and what follows. -/
def scanWord (n : Nat) (s : CStr) : Option (CStr × CStr) :=
  let s := s.dropWhile isSpace
  let word := (s.takeWhile fun c => !isSpace c).take n
  if word = [] then none else some (word, s.drop word.length)

/-- A buffer as a C string. -/
def cutNul (s : List Byte) : CStr := s.takeWhile (· ≠ 0)

/-- `handle_request`, on the bytes of the request and of its body: the command it has `route`
write. -/
def httpRequest (root : CStr) (req body : List Byte) : Option HttpCommand := do
  let (method, rest) ← scanWord 15 (cutNul req)
  let (target, _) ← scanWord 2047 rest
  let path := target.takeWhile (· ≠ 0x3F)
  let query := if 0x3F ∈ target then some (target.dropWhile (· ≠ 0x3F)).tail else none
  httpRoute root method path query (cutNul body)

/-- The line written, whole. -/
def HttpCommand.text (c : HttpCommand) : CStr :=
  c.verb ++ (c.words ++ c.tail.toList).flatMap fun piece => 0x20 :: piece

/-- What `snprintf` leaves of it in `cmd`. -/
def HttpCommand.line (c : HttpCommand) : CStr := c.text.take (httpCmdMax - 1)

/-! ## The dispatch -/

/-- What the words are separated by. -/
def ctlBlank (c : Byte) : Bool := c == 0x20 || c == 0x09

/-- What ends a line. -/
def ctlLineEnd (c : Byte) : Bool := c == 0x0A || c == 0x0D

/-- How a command takes its arguments: so many words; so many and the rest of the line; a word and
the bytes after it; or an address and, after `if`, the rest of the line. -/
inductive CtlArgs
  | words (n : Nat)
  | raw (n : Nat)
  | bytes
  | cond
  deriving DecidableEq

/-- The commands, in the order `control_dispatch` looks for them. -/
def ctlCommands : List (CStr × CtlArgs) :=
  [(cstr "keys", .raw 0), (cstr "trace", .raw 1), (cstr "hello", .words 2),
    (cstr "peek", .words 1), (cstr "regs", .words 0), (cstr "set", .raw 2),
    (cstr "read", .raw 2), (cstr "bread", .words 2), (cstr "write", .bytes),
    (cstr "break", .cond), (cstr "unbreak", .words 1), (cstr "break-list", .words 0),
    (cstr "watch", .words 2), (cstr "hunt", .words 2), (cstr "save-mem", .words 3),
    (cstr "load-mem", .words 2), (cstr "state-save", .words 1), (cstr "state-load", .words 1),
    (cstr "unwatch", .words 1), (cstr "watch-list", .words 0), (cstr "watch-region", .raw 2),
    (cstr "watch-region-clear", .words 0), (cstr "watch-region-list", .words 0),
    (cstr "raster", .words 1), (cstr "unraster", .words 1), (cstr "load-tap", .words 1),
    (cstr "load-disk", .words 2), (cstr "eject-disk", .words 1), (cstr "eject-tape", .words 0),
    (cstr "loci-button", .words 1), (cstr "load-rom", .words 1), (cstr "load-sym", .words 2),
    (cstr "sym-group", .words 2), (cstr "stuck-bits", .words 2), (cstr "disasm", .words 2),
    (cstr "reset", .words 0), (cstr "nmi", .words 0), (cstr "pause", .words 0),
    (cstr "step", .words 0), (cstr "next", .words 0), (cstr "step-out", .words 0),
    (cstr "continue", .words 0), (cstr "quit", .words 0)]

/-- `strcasecmp(word, "if") == 0`. -/
def isIf (word : CStr) : Bool := word.map (· ||| 0x20) == cstr "if"

/-- The arguments a command is called with, `none` being `NULL`. -/
def CtlArgs.take (kind : CtlArgs) (save : CStr) : List (Option CStr) :=
  match kind with
  | .words n => (strtoks ctlBlank n save).1
  | .raw n => (strtoks ctlBlank n save).1 ++ [some (strtoks ctlBlank n save).2]
  | .bytes =>
    (strtoks ctlBlank 1 save).1 ++ (tokens ctlBlank (strtoks ctlBlank 1 save).2).map some
  | .cond =>
    (strtoks ctlBlank 1 save).1 ++
      [match strtok ctlBlank (strtoks ctlBlank 1 save).2 with
      | some (word, rest) => if isIf word then some rest else none
      | none => none]

/-- A call of a command. -/
structure CtlCall where
  verb : CStr
  args : List (Option CStr)
  deriving DecidableEq

/-- `control_dispatch`: the call it makes, if it makes one. -/
def controlDispatch (line : CStr) : Option CtlCall :=
  match strtok ctlBlank (line.rdropWhile ctlLineEnd) with
  | none => none
  | some (cmd, save) =>
    (ctlCommands.lookup cmd).map fun kind => { verb := cmd, args := kind.take save }

/-- The file a call opens. -/
def CtlCall.file (call : CtlCall) : Option CStr :=
  if call.verb ∈ [cstr "load-tap", cstr "load-sym", cstr "save-mem", cstr "load-mem",
      cstr "state-save", cstr "state-load", cstr "load-rom"] then
    call.args.head?.join
  else if call.verb = cstr "load-disk" then call.args.tail.head?.join
  else if call.verb = cstr "trace" ∧ call.args.head?.join = some (cstr "save") then
    call.args.tail.head?.join
  else none

/-! ## The arguments meant -/

/-- The arguments the format means: a missing word is `NULL`, a missing rest of the line is empty,
and a missing condition is `NULL`. -/
def CtlArgs.meant (kind : CtlArgs) (c : HttpCommand) : List (Option CStr) :=
  match kind with
  | .words n => c.words.map some ++ List.replicate (n - c.words.length) none
  | .raw _ => c.words.map some ++ [some (c.tail.getD [])]
  | .bytes => c.words.map some ++ (tokens ctlBlank (c.tail.getD [])).map some
  | .cond => (c.words.take 1).map some ++ [c.tail]

/-- The call the command means. -/
def HttpCommand.call (c : HttpCommand) : CtlCall where
  verb := c.verb
  args := ((ctlCommands.lookup c.verb).getD (.words 0)).meant c

/-- A file inside the root. -/
def InRoot (root file : CStr) : Prop :=
  ∃ rel, file = root ++ 0x2F :: rel ∧ strstr rel (cstr "..") = false

/-- The line is cut into what the format means, and its file is inside the root. -/
structure HttpCommand.Exact (root : CStr) (c : HttpCommand) : Prop where
  call : controlDispatch c.line = some c.call
  file : ∀ call, controlDispatch c.line = some call → ∀ file ∈ call.file, InRoot root file

/-- Every value that stands for one word is one word, and the last value does not end in a line
end. -/
structure HttpCommand.Fits (c : HttpCommand) : Prop where
  words : ∀ word ∈ c.words, IsWord ctlBlank word
  last : ∀ piece ∈ (c.words ++ c.tail.toList).getLast?, ∀ b ∈ piece.getLast?, ctlLineEnd b = false

end Phosphoric
