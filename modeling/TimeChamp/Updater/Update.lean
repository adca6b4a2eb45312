import TimeChamp.Lib.Bytes
import TimeChamp.Lib.Json
import TimeChamp.Lib.Pool

/-!
# The self-update

`internal/updater/updater.go`: which release is installed, the check of its signature, and the replacement of the
binary.

* `Op` and `Reply` : the effects and their answers, `World` the files, `exec` what an effect does given the `Choice`
  of the outside. The run may stop between any two effects, and a failed write may leave part of the file.
* `EC` : the cryptography of Go's standard library; nothing is assumed of it.
* `fetchLatestRelease`, `verifyECDSA`, `checkAndApply`, and `autoUpdate`, the body of the hourly loop of the agent.
-/

namespace TimeChamp.Updater
open TimeChamp.Lib

abbrev Bytes := List UInt8

/-- `Config`; `DataDir` is not read. -/
structure Config where
  currentVersion : String
  repo : String
  publicKeyPEM : String

/-- `runtime.GOOS` and `runtime.GOARCH`. -/
structure Platform where
  goos : String
  goarch : String

structure ReleaseAsset where
  name : String
  browserDownloadURL : String
deriving DecidableEq

structure GithubRelease where
  tagName : String
  assets : List ReleaseAsset
deriving DecidableEq

/-! ## Effects -/

inductive Op where
  | latestRelease (apiURL : String)
  | httpGet (url : String)
  | executable
  | evalSymlinks (path : String)
  | writeFile (path : String) (data : Bytes)
  | rename (src dst : String)
  | remove (path : String)
  | log (message : String)
  | exit (code : Nat)
deriving DecidableEq

abbrev Op.Reply : Op → Type
  | .latestRelease _ => Except String GithubRelease
  | .httpGet _ => Except String Bytes
  | .executable => Except String String
  | .evalSymlinks _ => Except String String
  | .writeFile _ _ => Except String Unit
  | .rename _ _ => Except String Unit
  | .remove _ => Except String Unit
  | .log _ => Unit
  | .exit _ => Unit

/-- The file system, and where the executable of the agent really is. -/
structure World where
  exePath : String
  files : String → Option Bytes

/-- How a call on the file system ends; a failed write may have written the first bytes. -/
inductive FsOutcome where
  | ok
  | failed
  | cut (written : Nat)
deriving DecidableEq

/-- What the outside decides. -/
structure Choice where
  release : Except String GithubRelease
  body : Except String Bytes
  path : Except String String
  fs : FsOutcome

def World.set (w : World) (path : String) (data : Option Bytes) : World :=
  { w with files := fun p => if p = path then data else w.files p }

def World.rename (w : World) (src dst : String) : Except String Unit × World :=
  match w.files src with
  | none => (.error "The system cannot find the file specified.", w)
  | some data => (.ok (), (w.set src none).set dst (some data))

def exec (ch : Choice) : (op : Op) → World → Option (op.Reply × World)
  | .latestRelease _, w => some (ch.release, w)
  | .httpGet _, w => some (ch.body, w)
  | .executable, w => some (ch.path, w)
  | .evalSymlinks _, w =>
    match ch.path with
    | .error e => some (.error e, w)
    | .ok _ => some (.ok w.exePath, w)
  | .writeFile path data, w =>
    match ch.fs with
    | .ok => some (.ok (), w.set path (some data))
    | .failed => some (.error "Access is denied.", w)
    | .cut written => some (.error "There is not enough space on the disk.", w.set path (some (data.take written)))
  | .rename src dst, w =>
    match ch.fs with
    | .ok => some (w.rename src dst)
    | .failed | .cut _ => some (.error "Access is denied.", w)
  | .remove path, w =>
    match ch.fs with
    | .ok => some (.ok (), w.set path none)
    | .failed | .cut _ => some (.error "Access is denied.", w)
  | .log _, w => some ((), w)
  | .exit _, w => some ((), w)

abbrev Program := Prog Op Op.Reply

namespace Program
abbrev latestRelease (apiURL : String) : Program (Except String GithubRelease) :=
  .perform (E := Op) (.latestRelease apiURL)
abbrev httpGet (url : String) : Program (Except String Bytes) := .perform (E := Op) (.httpGet url)
abbrev executable : Program (Except String String) := .perform (E := Op) .executable
abbrev evalSymlinks (path : String) : Program (Except String String) := .perform (E := Op) (.evalSymlinks path)
abbrev writeFile (path : String) (data : Bytes) : Program (Except String Unit) :=
  .perform (E := Op) (.writeFile path data)
abbrev rename (src dst : String) : Program (Except String Unit) := .perform (E := Op) (.rename src dst)
abbrev remove (path : String) : Program (Except String Unit) := .perform (E := Op) (.remove path)
abbrev log (message : String) : Program Unit := .perform (E := Op) (.log message)
abbrev exit (code : Nat) : Program Unit := .perform (E := Op) (.exit code)
end Program

open Program

/-! ## Which release -/

/-- `strings.TrimPrefix(tag, "v")`. -/
def trimV (tag : String) : String :=
  match tag.toList with
  | 'v' :: rest => String.ofList rest
  | _ => tag

/-- The name of the asset for a platform. -/
def wantName (p : Platform) : String :=
  "timechamp-agent-" ++ p.goos ++ "-" ++ p.goarch ++ if p.goos = "windows" then ".exe" else ""

/-- The URL of the last asset with a name; empty if there is none. -/
def assetNamed (assets : List ReleaseAsset) (name : String) : String :=
  assets.foldl (fun url a => if a.name = name then a.browserDownloadURL else url) ""

/-- What `fetchLatestRelease` makes of a release: the tag and the URLs of asset and signature, all empty when up to
date. -/
def chooseRelease (p : Platform) (rel : GithubRelease) (currentVersion : String) :
    Except String (String × String × String) :=
  let latestTag := trimV rel.tagName
  let currentTag := trimV currentVersion
  if latestTag = currentTag ∨ latestTag = "" then .ok ("", "", "")
  else
    let assetURL := assetNamed rel.assets (wantName p)
    let sigURL := assetNamed rel.assets (wantName p ++ ".sig")
    if assetURL = "" ∨ sigURL = "" then
      .error ("no asset found for " ++ p.goos ++ "/" ++ p.goarch ++ " in release " ++ rel.tagName)
    else .ok (latestTag, assetURL, sigURL)

def fetchLatestRelease (p : Platform) (repo currentVersion : String) :
    Program (Except String (String × String × String)) := do
  match ← latestRelease ("https://api.github.com/repos/" ++ repo ++ "/releases/latest") with
  | .error e => pure (.error e)
  | .ok rel => pure (chooseRelease p rel currentVersion)

/-! ## The signature -/

/-- `encoding/pem`, `crypto/x509`, `crypto/ecdsa` and `crypto/sha256`. -/
structure EC where
  PublicKey : Type
  decode : String → Option Bytes
  parsePKIXPublicKey : Bytes → Except String PublicKey
  isP256 : PublicKey → Bool
  sum256 : Bytes → Bytes
  verify : PublicKey → Bytes → Nat → Nat → Bool

/-- White space of Unicode. -/
def spaces : List Nat :=
  [9, 10, 11, 12, 13, 32, 0x85, 0xA0, 0x1680, 0x2000, 0x2001, 0x2002, 0x2003, 0x2004, 0x2005, 0x2006, 0x2007, 0x2008,
    0x2009, 0x200A, 0x2028, 0x2029, 0x202F, 0x205F, 0x3000]

/-- At most `n` of these codes leave the head of a text. -/
def dropCodes (codes : List Bytes) : Nat → Bytes → Bytes
  | 0, text => text
  | n + 1, text =>
    match codes.find? fun code => code.isPrefixOf text with
    | some code => dropCodes codes n (text.drop code.length)
    | none => text

/-- `strings.TrimSpace`; bytes that are no UTF-8 are no white space. -/
def trimSpace (text : Bytes) : Bytes :=
  let codes := spaces.map fun c => utf8 (String.singleton (Char.ofNat c))
  let trimmed := dropCodes codes text.length text
  (dropCodes (codes.map List.reverse) trimmed.length trimmed.reverse).reverse

example : trimSpace [0xE2, 0x80, 0xA8, 97, 32, 0x80, 0xC2, 0xA0, 10] = [97, 32, 0x80] := by decide +kernel

/-- `hex.DecodeString`. -/
def decodeString : Bytes → Except String Bytes
  | [] => .ok []
  | [a] =>
    match Json.hexValue (Char.ofNat a.toNat) with
    | none => .error "encoding/hex: invalid byte"
    | some _ => .error "encoding/hex: odd length hex string"
  | a :: b :: rest =>
    match Json.hexValue (Char.ofNat a.toNat), Json.hexValue (Char.ofNat b.toNat) with
    | some x, some y => (decodeString rest).map (UInt8.ofNat (16 * x + y) :: ·)
    | _, _ => .error "encoding/hex: invalid byte"

def verifyECDSA (ec : EC) (publicKeyPEM : String) (data sigHex : Bytes) : Except String Unit :=
  match ec.decode publicKeyPEM with
  | none => .error "invalid PEM block"
  | some block =>
    match ec.parsePKIXPublicKey block with
    | .error e => .error ("parse public key: " ++ e)
    | .ok pub =>
      if ec.isP256 pub = false then .error "expected ECDSA-P256 public key"
      else
        match decodeString sigHex with
        | .error e => .error ("decode signature hex: " ++ e)
        | .ok sigBytes =>
          if sigBytes.length ≠ 64 then
            .error ("signature must be 64 bytes (r||s), got " ++ toString sigBytes.length)
          else if ec.verify pub (ec.sum256 data) (ofBE (sigBytes.take 32)) (ofBE (sigBytes.drop 32)) then .ok ()
          else .error "signature does not match"

/-! ## The replacement -/

section
variable (ec : EC) (p : Platform) (cfg : Config)

/-- The replacement of `exe` by `data`. -/
def replace (exe : String) (data : Bytes) : Program (Except String Unit) := do
  match ← writeFile (exe ++ ".update") data with
  | .error e => pure (.error ("write staged binary: " ++ e))
  | .ok _ =>
    match ← rename exe (exe ++ ".bak") with
    | .error e =>
      let _ ← remove (exe ++ ".update")
      pure (.error ("backup current binary: " ++ e))
    | .ok _ =>
      match ← rename (exe ++ ".update") exe with
      | .error e =>
        let _ ← rename (exe ++ ".bak") exe
        pure (.error ("install new binary: " ++ e))
      | .ok _ =>
        let _ ← remove (exe ++ ".bak")
        exit 0
        pure (.ok ())

def checkAndApply : Program (Except String Unit) := do
  match ← fetchLatestRelease p cfg.repo cfg.currentVersion with
  | .error e => pure (.error ("update check: " ++ e))
  | .ok (latest, assetURL, sigURL) =>
    if latest = "" then pure (.ok ())
    else
      match ← httpGet assetURL with
      | .error e => pure (.error ("download asset: " ++ e))
      | .ok assetBytes =>
        match ← httpGet sigURL with
        | .error e => pure (.error ("download sig: " ++ e))
        | .ok sigHex =>
          match verifyECDSA ec cfg.publicKeyPEM assetBytes (trimSpace sigHex) with
          | .error e => pure (.error ("signature verification failed: " ++ e))
          | .ok _ =>
            match ← executable with
            | .error e => pure (.error ("locate executable: " ++ e))
            | .ok exe =>
              match ← evalSymlinks exe with
              | .error e => pure (.error ("resolve symlinks: " ++ e))
              | .ok exe => replace exe assetBytes

/-- One round of the hourly loop. -/
def autoUpdate : Program Unit := do
  match ← checkAndApply ec p cfg with
  | .error e => log ("Auto-update check: " ++ e)
  | .ok _ => pure ()

end

end TimeChamp.Updater
