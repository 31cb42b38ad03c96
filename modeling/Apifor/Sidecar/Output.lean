import Apifor.Lib.Regex
import Apifor.Lib.Utf8

/-!
# What the CLI prints

`auth-sidecar/server.py`: the authorization URL and the token, found in the bytes that came through the
pseudo-terminal.
-/

namespace Sidecar

open Regex Utf8

abbrev Bytes := List UInt8

/-- Of the longest, the first. -/
def longest {α : Type} (xs : List (List α)) : Option (List α) :=
  xs.foldl (fun best x => match best with
    | none => some x
    | some b => if b.length < x.length then some x else some b) none

/-! ## The URL -/

def esc : UInt8 := 0x1b

def bel : UInt8 := 0x07

/-- `OSC8`: a hyperlink of the terminal; the group is its target. -/
def osc8 : Regex UInt8 :=
  all [lit (esc :: ascii "]8;"), many (fun b => b ≠ 0x3b) 0, lit (ascii ";"),
    group (.seq (lit (ascii "https://")) (many (fun b => b ≠ esc ∧ b ≠ bel) 1)),
    .alt (lit (esc :: ascii "\\")) (lit [bel])]

/-- `[^\s\x1b\x07"']`. -/
def urlByte (b : UInt8) : Bool := !([0x20, 0x09, 0x0a, 0x0d, 0x0c, 0x0b, esc, bel, 0x22, 0x27].contains b)

def authorize : Bytes := ascii "oauth/authorize"

/-- `RAW_URL`. -/
def rawUrl : Regex UInt8 := all [lit (ascii "https://"), many urlByte 0, lit authorize, many urlByte 0]

def stateKey : Bytes := ascii "state="

/-- The targets of hyperlinks that are authorization URLs with a state. -/
def linked (buf : Bytes) : List Bytes :=
  ((finditer osc8 buf).map (·.group)).filter fun u => isIn authorize u && isIn stateKey u

/-- The plain authorization URLs with a state. -/
def plain (buf : Bytes) : List Bytes := ((finditer rawUrl buf).map (·.text)).filter fun u => isIn stateKey u

/-- `_extract_url`, before the decoding. -/
def extractUrl (buf : Bytes) : Option Bytes :=
  match linked buf with
  | u :: _ => some u
  | [] => longest (plain buf)

/-! ## The token -/

def isDigit (c : Char) : Bool := '0' ≤ c && c ≤ '9'

def isLetter (c : Char) : Bool := ('a' ≤ c && c ≤ 'z') || ('A' ≤ c && c ≤ 'Z')

def isPrintable (c : Char) : Bool := 0x20 ≤ c.toNat && c.toNat ≤ 0x7e

def escChar : Char := Char.ofNat 0x1b

def belChar : Char := Char.ofNat 0x07

/-- `\x1b\[[0-9;?]*[a-zA-Z]`. -/
def csi : Regex Char := all [lit [escChar, '['], many (fun c => isDigit c || c = ';' || c = '?') 0, one isLetter]

/-- `\x1b\][^\x07\x1b]*(\x1b\\|\x07)?`. -/
def osc : Regex Char :=
  all [lit [escChar, ']'], many (fun c => c ≠ belChar && c ≠ escChar) 0,
    .opt (.alt (lit [escChar, '\\']) (lit [belChar]))]

/-- `[^\x20-\x7e]+`. -/
def unprintable : Regex Char := many (fun c => !isPrintable c) 1

def tokenByte (c : Char) : Bool := isDigit c || isLetter c || c = '_' || c = '-'

/-- `TOKEN_RE`. -/
def tokenRe : Regex Char :=
  all [lit "sk-ant-oat".toList, many (fun c => isDigit c || isLetter c) 0, lit ['-'], many tokenByte 20]

/-- The output without escapes and frames. -/
def visible (buf : Bytes) : List Char := sub unprintable [' '] (sub (.alt csi osc) [] (decode buf))

def tokens (buf : Bytes) : List (List Char) := (finditer tokenRe (visible buf)).map (·.text)

/-- `_capture_token`. -/
def captureToken (buf : Bytes) : Option String := (longest (tokens buf)).map String.ofList

end Sidecar
