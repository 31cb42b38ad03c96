import Apifor.Http.Core
import Apifor.Lib.Utf8

/-!
# Stripe

`billing/stripe.go`: the check of a webhook's signature, and the scan of an answer for its URL. The
HMAC itself is a parameter, of a secret and the bytes that are signed.
-/

namespace Apifor

namespace Stripe

/-! ## Signatures -/

structure SigHeader where
  ts : String := ""
  v1s : List String := []

def sigPart (h : SigHeader) (part : String) : SigHeader :=
  match Text.cut (Text.trimSpace part) '=' with
  | none => h
  | some (k, v) =>
      if k = "t" then { h with ts := v } else if k = "v1" then { h with v1s := h.v1s ++ [v] } else h

def sigHeader (header : String) : SigHeader := (Text.split header ',').foldl sigPart {}

/-- `strconv.ParseInt(s, 10, 64)`. -/
def parseInt (s : String) : Option Int :=
  match s.toList with
  | '+' :: c :: cs => if c = '-' then none else Json.int64? (String.ofList (c :: cs))
  | _ => Json.int64? s

/-- `hex.DecodeString`. -/
def hexBytes : List Char → Option (List UInt8)
  | [] => some []
  | a :: b :: cs => do
      let hi ← Json.hexVal a
      let lo ← Json.hexVal b
      let rest ← hexBytes cs
      pure (UInt8.ofNat (hi * 16 + lo) :: rest)
  | [_] => none

variable (hmac : String → List UInt8 → List UInt8)

/-- `VerifyWebhook`. -/
def verifyWebhook (payload : List UInt8) (header secret : String) (tolerance : Int) (now : Time) : Except String Unit :=
  let h := sigHeader header
  if secret = "" then .error "webhook secret não configurado"
  else if h.ts = "" ∨ h.v1s = [] then .error "assinatura malformada"
  else
    let expected := hmac secret (Utf8.encode (h.ts ++ ".") ++ payload)
    let signed := h.v1s.any fun v => decide (hexBytes v.toList = some expected)
    let verdict := if signed then .ok () else .error "assinatura inválida"
    if tolerance > 0 then
      match parseInt h.ts with
      | none => .error "timestamp inválido"
      | some n =>
          let d := now - n * second
          if d > tolerance ∨ d < -tolerance then .error "timestamp fora da tolerância" else verdict
    else verdict

/-- `hex.EncodeToString`. -/
def hexText (tag : List UInt8) : String :=
  String.ofList (tag.flatMap fun b => [Json.hexDigit (b.toNat / 16), Json.hexDigit (b.toNat % 16)])

/-- The bytes under a signature. -/
def signedBytes (payload : List UInt8) (ts : Int64) : List UInt8 := Utf8.encode (toString ts.toInt ++ ".") ++ payload

/-- `Sign`. -/
def sign (payload : List UInt8) (secret : String) (ts : Int64) : String :=
  "t=" ++ toString ts.toInt ++ ",v1=" ++ hexText (hmac secret (signedBytes payload ts))

/-! ## Answers -/

/-- The first bytes of a text, as a JSON answer shows them: each byte of a character that is cut is a U+FFFD. -/
def firstBytes : Nat → List Char → List Char
  | _, [] => []
  | n, c :: cs => if c.utf8Size ≤ n then c :: firstBytes (n - c.utf8Size) cs else List.replicate n Utf8.replacement

/-- `truncate(body, 200)`. -/
def truncated (body : String) : String := String.ofList (firstBytes 200 body.toList)

/-- `postStripe`: a field of the answer, found by a scan. -/
def postStripe (field : String) : Reply → Except String String
  | .failed msg => .error msg
  | .answer st body =>
      if st ≥ 300 then .error ("stripe HTTP " ++ toString st ++ ": " ++ truncated body)
      else
        match Text.between body ("\"" ++ field ++ "\":\"") '"' with
        | none => .error ("resposta sem campo " ++ field)
        | some none => .error "resposta malformada"
        | some (some v) => .ok (String.ofList (Text.unescapeSlashes v.toList))

end Stripe

end Apifor
