import Atf.Lib.LuaPattern
import Atf.Lib.LuaValue
import Atf.RemoteClient
import Mathlib.Data.List.DropRight

/-!
# The configuration files of SDL (`SDL.lua`, `remote_file_utils.lua`, `utils_manager.cc`)

Six stores are kept in files: two are texts of `name = value` lines, four are JSON. Where the JSON files are is
said by parameters of the first store. `Files` is the file system of the host that SDL runs on, which is this host
or the remote one; the commands `cp` and `rm -f` act on it directly, the functions of `UtilsManager` at the other
end of the connection. A remote file arrives whole (`Connection.fileCall`), over a local copy that is removed.
-/

namespace Atf
open Lua

abbrev Files := Table Text Text

/-- The configuration, and what the host and the JSON library do. -/
structure SdlEnv where
  pathToSDL : Option Text
  loggerName : String
  -- `config.remoteConnection.enabled`
  remote : Bool
  -- whether a file that exists can be opened for reading
  readable : Text → Bool
  -- whether a file can be opened for writing, and what is written is flushed; whether it can be removed
  creatable : Text → Bool
  removable : Text → Bool
  -- `json.encode`
  encode : Value → LuaM Text

/-- The content that opening the file for reading gives. -/
def SdlEnv.read (env : SdlEnv) (files : Files) (path : Text) : Option Text :=
  if env.readable path then files path else none

theorem SdlEnv.read_of_present {env : SdlEnv} {files : Files} {path content : Text} (h : files path = some content)
    (hreadable : env.readable path = true) : env.read files path = some content := (if_pos hreadable).trans h

/-! ### The remote host -/

namespace UtilsManager

def kBackupSuffix : Text := "_origin".toList

def joinPath (path part_path : Text) : Text :=
  if path.getLast? = some '/' then path ++ part_path else path ++ '/' :: part_path

/-- `dest << src.rdbuf()`: opening the destination empties it, and to insert nothing is an error. A source that could
not be opened has nothing to insert. -/
def copy (env : SdlEnv) (files : Files) (src dest : Text) : Files × Bool :=
  let content := (env.read files src).getD []
  if env.creatable dest then (files.set dest content, !content.isEmpty) else (files, false)

def toResult (success : Bool) : Int := if success then error_codes.SUCCESS else error_codes.FAILED

def fileDelete (env : SdlEnv) (files : Files) (file_path file_name : Text) : Files × Int :=
  let path := joinPath file_path file_name
  if (files path).isSome && env.removable path then (files.erase path, error_codes.SUCCESS)
  else (files, error_codes.FAILED)

def fileBackup (env : SdlEnv) (files : Files) (file_path file_name : Text) : Files × Int :=
  let path := joinPath file_path file_name
  let (files, success) := copy env files path (path ++ kBackupSuffix)
  (files, toResult success)

def fileRestore (env : SdlEnv) (files : Files) (file_path file_name : Text) : Files × Int :=
  let path := joinPath file_path file_name
  let (files, success) := copy env files (path ++ kBackupSuffix) path
  let (files, _) := fileDelete env files file_path (file_name ++ kBackupSuffix)
  (files, toResult success)

/-- The content goes through C strings and ends at its first zero. -/
def fileUpdate (env : SdlEnv) (files : Files) (file_path file_name file_content : Text) : Files × Int :=
  let path := joinPath file_path file_name
  if env.creatable path then (files.set path (file_content.takeWhile (· ≠ '\x00')), error_codes.SUCCESS)
  else (files, error_codes.FAILED)

def fileExists (files : Files) (file_path file_name : Text) : Int :=
  toResult (files (joinPath file_path file_name)).isSome

end UtilsManager

namespace RemoteFileUtils

/-- `RemoteConstants.ERROR_CODE` -/
def ERROR_CODE : List Int := [0, -1, -2, -3, -4, -5, -6, -7, -8, -9, -10]

/-- `HandleResult` for a result that is a boolean. -/
def handleResult (result : Int) : LuaM Bool :=
  if result = error_codes.SUCCESS then .ok true
  else if result ∈ ERROR_CODE then .ok false
  else .error ("Module RemoteFileUtils received invalid result value: " ++ toString result)

end RemoteFileUtils

/-! ### Paths -/

/-- `s .. t`, where `s` may be `nil`. -/
def concat : Option Text → Text → LuaM Text
  | some s, t => .ok (s ++ t)
  | none, _ => .error "attempt to concatenate a nil value"

namespace SDL

def addSlashToPath : Option Text → Option Text
  | none => none
  | some [] => none
  | some p => some (if p.getLast? = some '/' then p else p ++ ['/'])

def getPath (env : SdlEnv) (pPath pParentPath : Option Text) : LuaM (Option Text) :=
  let parent := addSlashToPath (pParentPath <|> env.pathToSDL)
  match pPath with
  | none => .error "bad argument #1 to 'len' (string expected, got nil)"
  | some [] => .ok parent
  | some p =>
    if p.head? = some '/' then .ok (addSlashToPath (some p))
    else if p = ['.'] then .ok parent
    else (concat parent p).map fun path => addSlashToPath (some path)

def getFilePath (env : SdlEnv) (pFilePath pParentPath : Option Text) : LuaM (Option Text) := do
  let parent ← getPath env (pParentPath <|> env.pathToSDL) none
  match pFilePath with
  | none => .ok none
  | some [] => .ok none
  | some p => if p.head? = some '/' then .ok (some p) else (concat parent p).map some

/-- The path up to its last slash and the name behind it; without a slash the arithmetic raises. -/
def getPathAndName (pPathToFile : Text) : LuaM (Text × Text) :=
  if '/' ∈ pPathToFile then .ok (pPathToFile.rdropWhile (· ≠ '/'), pPathToFile.rtakeWhile (· ≠ '/'))
  else .error "attempt to perform arithmetic on local 'pos' (a nil value)"

/-! ### Files -/

def isFileExist (env : SdlEnv) (files : Files) (pFile : Text) : LuaM Bool :=
  if env.remote then do
    let (p, n) ← getPathAndName pFile
    RemoteFileUtils.handleResult (UtilsManager.fileExists files p n)
  else .ok (env.read files pFile).isSome

def getFileContent (env : SdlEnv) (files : Files) : (pPathToFile : Option Text) → LuaM (Option Text)
  | none => .ok none
  | some path =>
    if env.remote then do
      let (p, n) ← getPathAndName path
      let isExist ← RemoteFileUtils.handleResult (UtilsManager.fileExists files p n)
      -- a file that the server cannot open is not transferred
      return if isExist then env.read files (UtilsManager.joinPath p n) else none
    else .ok (env.read files path)

def saveFileContent (env : SdlEnv) (files : Files) (pPathToFile : Option Text) (pContent : Text) : LuaM Files :=
  match pPathToFile with
  | none => .error "bad argument #1 (string expected, got nil)"
  | some path =>
    if env.remote then do
      let (p, n) ← getPathAndName path
      let (files, result) := UtilsManager.fileUpdate env files p n pContent
      let _ ← RemoteFileUtils.handleResult result
      return files
    else .ok (if env.creatable path then files.set path pContent else files)

/-- `cp src dest` -/
def cp (env : SdlEnv) (files : Files) (src dest : Text) : Files :=
  match env.read files src with
  | some content => if env.creatable dest then files.set dest content else files
  | none => files

/-- `rm -f path` -/
def rm (env : SdlEnv) (files : Files) (path : Text) : Files := if env.removable path then files.erase path else files

def origin (pFilePath : Text) : Text := pFilePath ++ "_origin".toList

def restore (env : SdlEnv) (files : Files) : (pFilePath : Option Text) → LuaM Files
  | none => .error "attempt to concatenate local 'pFilePath' (a nil value)"
  | some path => do
    let isExists ← isFileExist env files (origin path)
    if isExists then
      if env.remote then
        let (p, n) ← getPathAndName path
        let (files, result) := UtilsManager.fileRestore env files p n
        let _ ← RemoteFileUtils.handleResult result
        return files
      else return rm env (cp env files (origin path) path) (origin path)
    else return files

def backup (env : SdlEnv) (files : Files) (pFilePath : Option Text) : LuaM Files := do
  let files ← restore env files pFilePath
  match pFilePath with
  | none => .error "attempt to concatenate local 'pFilePath' (a nil value)"
  | some path =>
    if env.remote then
      let (p, n) ← getPathAndName path
      let (files, result) := UtilsManager.fileBackup env files p n
      let _ ← RemoteFileUtils.handleResult result
      return files
    else return cp env files path (origin path)

/-! ### Lines of `name = value` -/

def isBreak (c : Char) : Bool := c = '\r' || c = '\n'

/-- `pContent:gmatch("[^\r\n]+")`, with the line that is being read. -/
def filledLines : (line : Text) → Text → List Text
  | line, [] => if line = [] then [] else [line]
  | line, c :: s =>
    if isBreak c then if line = [] then filledLines [] s else line :: filledLines [] s
    else filledLines (line ++ [c]) s

/-- `pContent:gmatch("([^\r\n]*)[\r\n]")`, with the line that is being read; a last line without a break is lost. -/
def endedLines : (line : Text) → Text → List Text
  | _, [] => []
  | line, c :: s => if isBreak c then line :: endedLines [] s else endedLines (line ++ [c]) s

/-- The value on a line that has the parameter. -/
def lineValue (line : Text) : LuaM (Option Text) := do
  if (← find line "%s*=%s*$".toList).isSome then return some []
  return (← find line "%s*=%s*.".toList).map fun (start, rest) => start.drop (start.length - rest.length - 1)

def getParamValueIn (pParam : Text) : List Text → LuaM (Option Text)
  | [] => .ok none
  | line :: lines => do
    if (← find line ("^%s*".toList ++ pParam ++ "%s*=%s*".toList)).isSome then
      match ← lineValue line with
      | some value => return some value
      | none => getParamValueIn pParam lines
    else getParamValueIn pParam lines

def getParamValue (pContent pParam : Text) : LuaM (Option Text) := getParamValueIn pParam (filledLines [] pContent)

/-- The loop of `setParamValue`; later lines with the parameter are commented out. -/
def setParamValueIn (pParam pValue : Text) : (found : Bool) → List Text → LuaM Text
  | _, [] => .ok []
  | found, line :: lines => do
    let ptrn := "^%s*;*%s*".toList ++ pParam ++ "%s*=.*".toList
    if (← find line ptrn).isSome then
      let line ←
        if found then .ok (';' :: line)
        else if pValue = [';'] then gsubAnchored line ptrn (pValue ++ pParam ++ " = ".toList)
        else gsubAnchored line ptrn (pParam ++ " = ".toList ++ pValue)
      let out ← setParamValueIn pParam pValue true lines
      return line ++ '\n' :: out
    else
      let out ← setParamValueIn pParam pValue found lines
      return line ++ '\n' :: out

/-- Each `%` of the value is doubled first, for the replacement. -/
def setParamValue (pContent pParam pValue : Text) : LuaM Text :=
  setParamValueIn pParam (pValue.flatMap fun c => if c = '%' then ['%', '%'] else [c]) false (endedLines [] pContent)

/-! ### The stores -/

/-- `get` of a store of lines. -/
def getParam (env : SdlEnv) (files : Files) (file : LuaM (Option Text)) (pParam : Text) : LuaM (Option Text) := do
  match ← getFileContent env files (← file) with
  | some content => getParamValue content pParam
  | none => .error "attempt to index local 'pContent' (a nil value)"

/-- `set` of a store of lines. -/
def setParam (env : SdlEnv) (files : Files) (file : LuaM (Option Text)) (pParam pValue : Text) : LuaM Files := do
  match ← getFileContent env files (← file) with
  | some content => do
    let content ← setParamValue content pParam pValue
    saveFileContent env files (← file) content
  | none => .error "attempt to index local 'pContent' (a nil value)"

namespace INI

def file (env : SdlEnv) : LuaM (Option Text) := (concat env.pathToSDL "smartDeviceLink.ini".toList).map some

def get (env : SdlEnv) (files : Files) (pParam : Text) : LuaM (Option Text) := getParam env files (file env) pParam

def set (env : SdlEnv) (files : Files) (pParam pValue : Text) : LuaM Files :=
  setParam env files (file env) pParam pValue

def backup (env : SdlEnv) (files : Files) : LuaM Files := do SDL.backup env files (← file env)

def restore (env : SdlEnv) (files : Files) : LuaM Files := do SDL.restore env files (← file env)

end INI

namespace LOGGER

def file (env : SdlEnv) : LuaM (Option Text) :=
  let configFileName := if env.loggerName = "LOG4CXX" then "log4cxx.properties" else "boostlogconfig.ini"
  (concat env.pathToSDL configFileName.toList).map some

def get (env : SdlEnv) (files : Files) (pParam : Text) : LuaM (Option Text) := getParam env files (file env) pParam

def set (env : SdlEnv) (files : Files) (pParam pValue : Text) : LuaM Files :=
  setParam env files (file env) pParam pValue

def backup (env : SdlEnv) (files : Files) : LuaM Files := do SDL.backup env files (← file env)

def restore (env : SdlEnv) (files : Files) : LuaM Files := do SDL.restore env files (← file env)

end LOGGER

/-- The file that one parameter names, in the folder that another one names. -/
def paramFile (env : SdlEnv) (files : Files) (name folder : String) : LuaM (Option Text) := do
  let pFilePath ← INI.get env files name.toList
  let pParentPath ← INI.get env files folder.toList
  getFilePath env pFilePath pParentPath

def AppStorage.path (env : SdlEnv) (files : Files) : LuaM (Option Text) := do
  getPath env (← INI.get env files "AppStorageFolder".toList) none

/-- `set` of a store of JSON. -/
def setJson (env : SdlEnv) (files : Files) (file : LuaM (Option Text)) (value : Value) : LuaM Files := do
  let content ← env.encode value
  saveFileContent env files (← file) content

/-- The same, after `mkdir -p` of the storage folder, which changes no file. -/
def setStoredJson (env : SdlEnv) (files : Files) (file : LuaM (Option Text)) (value : Value) : LuaM Files := do
  let content ← env.encode value
  let _ ← concat (← AppStorage.path env files) []
  saveFileContent env files (← file) content

namespace PreloadedPT

def file (env : SdlEnv) (files : Files) : LuaM (Option Text) := paramFile env files "PreloadedPT" "AppConfigFolder"

def set (env : SdlEnv) (files : Files) (pPPT : Value) : LuaM Files := setJson env files (file env files) pPPT

def backup (env : SdlEnv) (files : Files) : LuaM Files := do SDL.backup env files (← file env files)

def restore (env : SdlEnv) (files : Files) : LuaM Files := do SDL.restore env files (← file env files)

end PreloadedPT

namespace HMICap

def file (env : SdlEnv) (files : Files) : LuaM (Option Text) := paramFile env files "HMICapabilities" "AppConfigFolder"

def set (env : SdlEnv) (files : Files) (pHMICap : Value) : LuaM Files := setJson env files (file env files) pHMICap

def backup (env : SdlEnv) (files : Files) : LuaM Files := do SDL.backup env files (← file env files)

def restore (env : SdlEnv) (files : Files) : LuaM Files := do SDL.restore env files (← file env files)

end HMICap

namespace AppInfo

def file (env : SdlEnv) (files : Files) : LuaM (Option Text) := paramFile env files "AppInfoStorage" "AppStorageFolder"

def set (env : SdlEnv) (files : Files) (pAppInfo : Value) : LuaM Files :=
  setStoredJson env files (file env files) pAppInfo

def backup (env : SdlEnv) (files : Files) : LuaM Files := do SDL.backup env files (← file env files)

def restore (env : SdlEnv) (files : Files) : LuaM Files := do SDL.restore env files (← file env files)

end AppInfo

namespace HMICapCache

def file (env : SdlEnv) (files : Files) : LuaM (Option Text) :=
  paramFile env files "HMICapabilitiesCacheFile" "AppStorageFolder"

def set (env : SdlEnv) (files : Files) (pHmiCapCache : Value) : LuaM Files :=
  setStoredJson env files (file env files) pHmiCapCache

def backup (env : SdlEnv) (files : Files) : LuaM Files := do SDL.backup env files (← file env files)

/-- The file is that of another store. -/
def restore (env : SdlEnv) (files : Files) : LuaM Files := do SDL.restore env files (← AppInfo.file env files)

end HMICapCache

end SDL

end Atf
