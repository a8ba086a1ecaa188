import Atf.Lib.Lua

/-!
# Fetching a file (`remote_client.cc`, `utils_manager.cc`)

`fileCall` is `RemoteClient::file_call`, `fileContent` the server's handler of the RPC `file_content` and
`getFileContent` the function it calls. The offset in a response is also its result code: negative is an
error, zero the end of the file. The arithmetic of `GetFileContent` is on `long` and `size_t`, the code of
a response is an `int`.
-/

namespace Atf
open Lua

inductive ParamType
  | NIL | INT | DOUBLE | BOOLEAN | STRING
deriving DecidableEq, Repr

abbrev Parameter := String × ParamType

/-- `response_type`: a text and a code. -/
abbrev Response := Bytes × Int

def kMaxSizeData : Nat := 1048576
def kTmpPath : String := "/tmp/"

namespace error_codes
def SUCCESS : Int := 0
def FAILED : Int := -1
def WRITE_FAILURE : Int := -3
def NO_CONNECTION : Int := -7
end error_codes

/-- The bytes of a string literal or path. -/
def text (s : String) : Bytes := s.toUTF8.data.toList

/-! ### The server -/

def toLong (x : Int) : Int := x.bmod (2 ^ 64)

def toInt (x : Int) : Int := x.bmod (2 ^ 32)

def digits (ds : List Char) : Option Nat :=
  if !ds.isEmpty && ds.all Char.isDigit then some (Nat.ofDigitChars 10 ds 0) else none

/-- `boost::lexical_cast` to an integer, before the range of its type is checked. -/
def lexicalCast (s : String) : Option Int :=
  match s.toList with
  | '-' :: ds => (digits ds).map fun n => -(n : Int)
  | '+' :: ds => (digits ds).map fun n => (n : Int)
  | ds => (digits ds).map fun n => (n : Int)

def getString (parameter : Parameter) : Option String :=
  if parameter.2 = .STRING then some parameter.1 else none

/-- `GetValue` of a `long int`. -/
def getLong (parameter : Parameter) : Option Int :=
  if parameter.2 = .INT then
    (lexicalCast parameter.1).bind fun n => if -2 ^ 63 ≤ n ∧ n < 2 ^ 63 then some n else none
  else none

/-- `GetValue` of a `size_t`; a sign is accepted and wraps. -/
def getSize (parameter : Parameter) : Option Nat :=
  if parameter.2 = .INT then
    (lexicalCast parameter.1).bind fun n => if n.natAbs < 2 ^ 64 then some (n % 2 ^ 64).toNat else none
  else none

def joinPath (path part_path : String) : String :=
  if path.toList.getLast? = some '/' then path ++ part_path else path ++ "/" ++ part_path

/-- The file system and the allocator of the server; `uninit` is what `malloc` leaves in a buffer. -/
structure ServerHost where
  file : String → Option Bytes
  malloc : Nat → Bool
  uninit : UInt8

def ServerHost.getFileContent (host : ServerHost) (file_path file_name : String) (offset : Int)
    (max_size_content : Nat) : Bytes × Int :=
  match host.file (joinPath file_path file_name) with
  | none => ([], error_codes.FAILED)
  | some content =>
    let file_len := (((content.length : Int) - offset) % 2 ^ 64).toNat
    -- seeking to a negative offset fails and leaves the position at the end
    let position := if offset < 0 then content.length else offset.toNat
    let file_len :=
      if max_size_content ≠ 0 then if max_size_content > file_len then file_len else max_size_content
      else file_len
    if !host.malloc file_len then ([], error_codes.FAILED)
    else
      let data := (content.drop position).take file_len
      let buffer := data ++ List.replicate (file_len - data.length) host.uninit
      let offset :=
        if ((file_len : Int) + offset) % 2 ^ 64 = content.length then error_codes.SUCCESS
        else toLong (file_len + offset)
      (buffer, offset)

/-- The handler of `file_content`. -/
def ServerHost.fileContent (host : ServerHost) (parameters : List Parameter) : Response :=
  match parameters with
  | [p₀, p₁, p₂, p₃] =>
    match getString p₀, getString p₁, getLong p₂, getSize p₃ with
    | some file_path, some file_name, some offset, some max_size_content =>
      let (file_content, offset) := host.getFileContent file_path file_name offset max_size_content
      (file_content, toInt offset)
    | _, _, _, _ => (text "Bad type of the value", error_codes.FAILED)
  | _ => (text "Incorrect number of parameters", error_codes.FAILED)

/-! ### The client -/

/-- The connection, where `call n` is the answer to the `n`-th request, and what the client's host allows. -/
structure Connection where
  connected : Bool
  call : Nat → (rpc_name : String) → List Parameter → Response
  -- whether `fopen` can create or extend the file, which then takes all that is written
  creatable : String → Bool
  -- whether `remove` can remove the file
  removable : String → Bool

/-- `remove`, whose failure nobody looks at. -/
def Connection.remove (connection : Connection) (files : Table String Bytes) (path : String) : Table String Bytes :=
  if connection.removable path then files.erase path else files

def offsetParameter (offset : Int) : Parameter := (toString offset, .INT)

/-- The loop of `file_call` with `response` written next, as request `n` is made. It ends with the response that
is not written yet, or `none` at a negative response, and what has been written. -/
def Connection.fileLoop (connection : Connection) (rpc_name : String) (parameters : List Parameter) :
    (fuel : Nat) → (n : Nat) → Response → (written : Bytes) → Option (Option Response × Bytes)
  | 0, _, _, _ => none
  | fuel + 1, n, response, written =>
    let written := written ++ response.1
    let parameters := parameters.set (parameters.length - 2) (offsetParameter response.2)
    let response := connection.call n rpc_name parameters
    if 0 > response.2 then some (none, written)
    else if response.2 > 0 then connection.fileLoop rpc_name parameters fuel (n + 1) response written
    else some (some response, written)

/-- The parameters of the first request. -/
def firstParameters (parameters : List Parameter) : List Parameter :=
  parameters ++ [offsetParameter 0, (toString kMaxSizeData, .INT)]

def tmpPath (parameters : List Parameter) : String :=
  kTmpPath ++ ((firstParameters parameters).getD 1 (offsetParameter 0)).1

/-- `file_call`, with the files of the client by path. -/
def Connection.fileCall (connection : Connection) (fuel : Nat) (files : Table String Bytes) (rpc_name : String)
    (parameters : List Parameter) : Option (Response × Table String Bytes) :=
  if !connection.connected then some (([], error_codes.NO_CONNECTION), files)
  else
    let tmp_path := tmpPath parameters
    let parameters := firstParameters parameters
    let response := connection.call 0 rpc_name parameters
    if 0 > response.2 then some (response, files)
    else
      let files := connection.remove files tmp_path
      if !connection.creatable tmp_path then some ((text "Can't create file", error_codes.FAILED), files)
      else
        -- the mode is "a": a file that could not be removed is extended
        let kept := (files tmp_path).getD []
        if 0 < response.2 then
          match connection.fileLoop rpc_name parameters fuel 1 response [] with
          | none => none
          | some (none, written) =>
            some (([], error_codes.FAILED), connection.remove (files.set tmp_path (kept ++ written)) tmp_path)
          | some (some response, written) =>
            some ((text tmp_path, error_codes.SUCCESS), files.set tmp_path (kept ++ written ++ response.1))
        else some ((text tmp_path, error_codes.SUCCESS), files.set tmp_path (kept ++ response.1))

end Atf
