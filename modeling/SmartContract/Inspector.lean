import SmartContract.Wire
import Mathlib.Data.List.Basic
/-!
# SmartContract.Inspector

**Which outputs the inspector takes for protocol messages**: `isTokenizedOpReturn` and
the loop of `NewTransactionFromWire` in `pkg/inspector/inspector.go`.

Design points:

* A script is its bytes, `List UInt8`. `isTokenizedOpReturn` reads `pkScript[1]` and the
  slices `pkScript[2:6]` or `pkScript[3:7]` only once the script has 20 bytes, so they are
  `getD` and `drop`/`take`, whose fallbacks are never reached.
* `protocol.New` is not under `src/`; `NewTransactionFromWire` keeps its first result and
  drops its error, so it is the function `protocolNew`, to an `Option` (a nil interface is
  `none`).
* Errors are `errors.Wrap(cause, message)`: the sentinel's text and the wrapping message
  (`WrappedError`).
* `isProtocolPush` is a second reading of the same script, by the structure of a Bitcoin
  data push: the opcode at `pkScript[1]`, its length bytes, and the pushed data. It is not
  the code's; the theorems compare the two.
-/

namespace SmartContract.Inspector

/-- `txscript.OP_RETURN`. -/
def opReturn : UInt8 := 0x6a

/-- `targetVersion`: the protocol prefix. -/
def targetVersion : List UInt8 := [0x00, 0x00, 0x00, 0x20]

/-- `isTokenizedOpReturn`: at least 20 bytes, and the four bytes at offset 2, or at offset
3 when `pkScript[1]` is `0x4c` or more, are `targetVersion`. -/
def isTokenizedOpReturn (pkScript : List UInt8) : Bool :=
  if pkScript.length < 20 then false
  else
    let version := if pkScript.getD 1 0 < 0x4c then (pkScript.drop 2).take 4
      else (pkScript.drop 3).take 4
    version == targetVersion

/-! ### `NewTransactionFromWire` -/

/-- An error made by `errors.Wrap(cause, message)`; its `Error()` is `message: cause`. -/
structure WrappedError where
  cause : String
  message : String
  deriving DecidableEq, Repr

def errInvalidProtocol : String := "Invalid protocol message"
def errMissingInputs : String := "Message is missing inputs"
def errMissingOutputs : String := "Message is missing outputs"

/-- `inspector.Transaction` as `NewTransactionFromWire` fills it. -/
structure Transaction (Msg : Type) where
  hash : Hash
  msgTx : MsgTx
  msgProto : Option Msg
  deriving DecidableEq, Repr

variable {Msg : Type} (protocolNew : List UInt8 → Option Msg)

/-- One turn of the loop over `tx.TxOut`: skip an output that is not tokenized, reject the
transaction if a tokenized one does not start with `OP_RETURN`, and otherwise take
`protocol.New`'s message. -/
def scanOutput (msg : Option Msg) (txOut : TxOut) : Except WrappedError (Option Msg) :=
  if !isTokenizedOpReturn txOut.pkScript then .ok msg
  else if txOut.pkScript.getD 0 0 ≠ opReturn then .error ⟨errInvalidProtocol, "parsing op return"⟩
  else .ok (protocolNew txOut.pkScript)

/-- `NewTransactionFromWire`. -/
def newTransactionFromWire (tx : MsgTx) : Except WrappedError (Transaction Msg) :=
  if tx.txIn.length = 0 then .error ⟨errMissingInputs, "parsing transaction"⟩
  else if tx.txOut.length = 0 then .error ⟨errMissingOutputs, "parsing transaction"⟩
  else do
    let msg ← tx.txOut.foldlM (scanOutput protocolNew) none
    pure { hash := tx.txHash, msgTx := tx, msgProto := msg }

/-- An output that makes `NewTransactionFromWire` reject the transaction. -/
def rejects (txOut : TxOut) : Bool :=
  isTokenizedOpReturn txOut.pkScript && txOut.pkScript.getD 0 0 != opReturn

theorem scanOutput_eq (msg : Option Msg) (o : TxOut) :
    scanOutput protocolNew msg o =
      if rejects o then .error ⟨errInvalidProtocol, "parsing op return"⟩
      else .ok (if isTokenizedOpReturn o.pkScript then protocolNew o.pkScript else msg) := by
  unfold scanOutput rejects
  cases isTokenizedOpReturn o.pkScript <;> by_cases h : o.pkScript.getD 0 0 = opReturn <;> simp [h]

/-- **Run lemma of the loop.** Over any outputs, the loop fails with `ErrInvalidProtocol`
exactly when some output is tokenized but does not start with `OP_RETURN`; otherwise the
message is `protocol.New`'s on the last tokenized output, or the one it started with if
there is none. -/
theorem foldlM_scanOutput (outs : List TxOut) (msg : Option Msg) :
    outs.foldlM (scanOutput protocolNew) msg =
      if outs.any rejects then .error ⟨errInvalidProtocol, "parsing op return"⟩
      else .ok (((outs.filter (isTokenizedOpReturn ·.pkScript)).getLast?.map
        (protocolNew ·.pkScript)).getD msg) := by
  induction outs generalizing msg with
  | nil => rfl
  | cons o outs ih =>
    rw [List.foldlM_cons, scanOutput_eq]
    by_cases hr : rejects o
    · simp [hr]
      rfl
    · simp only [hr, Bool.false_eq_true, ite_false, List.any_cons, Bool.false_or]
      refine (ih _).trans ?_
      cases ht : isTokenizedOpReturn o.pkScript
      · simp [ht, List.filter_cons]
      · simp only [ht, ite_true, List.filter_cons, List.getLast?_cons]
        cases (outs.filter (isTokenizedOpReturn ·.pkScript)).getLast? <;> rfl

/-- **`NewTransactionFromWire` over every transaction.** It fails on a transaction without
inputs, then on one without outputs, then with `ErrInvalidProtocol` when some output is
tokenized but does not start with `OP_RETURN`. Otherwise it builds the transaction, whose
message is `protocol.New`'s result on the last tokenized output (nil if there is none):
`isTokenizedOpReturn` alone decides which outputs count. -/
theorem newTransactionFromWire_eq (tx : MsgTx) :
    newTransactionFromWire protocolNew tx =
      if tx.txIn = [] then .error ⟨errMissingInputs, "parsing transaction"⟩
      else if tx.txOut = [] then .error ⟨errMissingOutputs, "parsing transaction"⟩
      else if tx.txOut.any rejects then .error ⟨errInvalidProtocol, "parsing op return"⟩
      else .ok { hash := tx.txHash, msgTx := tx, msgProto :=
        (tx.txOut.filter (isTokenizedOpReturn ·.pkScript)).getLast?.bind (protocolNew ·.pkScript) } := by
  unfold newTransactionFromWire
  simp only [List.length_eq_zero, foldlM_scanOutput]
  split_ifs <;> try rfl
  cases (tx.txOut.filter (isTokenizedOpReturn ·.pkScript)).getLast? <;> rfl

/-! ### Payments to a hash -/

/-- `prefixP2PKH`: `OP_DUP OP_HASH160`. -/
def prefixP2PKH : List UInt8 := [0x76, 0xa9]

/-- `isPayToPublicKeyHash`: `pkScript[0:2]` is `prefixP2PKH`. The slice panics on a
script shorter than two bytes (`none`). -/
def isPayToPublicKeyHash (pkScript : List UInt8) : Option Bool :=
  if pkScript.length < 2 then none else some (pkScript.take 2 == prefixP2PKH)

/-- The standard payment to a 20-byte `hash`: pay-to-script-hash
`OP_HASH160 <hash> OP_EQUAL`, or pay-to-public-key-hash
`OP_DUP OP_HASH160 <hash> OP_EQUALVERIFY OP_CHECKSIG`. -/
def payToHash (p2sh : Bool) (hash : List UInt8) : List UInt8 :=
  if p2sh then [0xa9, 0x14] ++ hash ++ [0x87]
  else [0x76, 0xa9, 0x14] ++ hash ++ [0x88, 0xac]

/-- On a script that does not start with `OP_RETURN`, the loop rejects exactly the
tokenized outputs. -/
theorem rejects_eq_isTokenizedOpReturn {pkScript : List UInt8} (h : pkScript.getD 0 0 ≠ opReturn) :
    rejects ⟨pkScript⟩ = isTokenizedOpReturn pkScript := by
  simp only [rejects, bne_iff_ne.mpr h, Bool.and_true]

theorem payToHash_head (p2sh : Bool) (hash : List UInt8) : (payToHash p2sh hash).getD 0 0 ≠ opReturn := by
  cases p2sh <;> simp [payToHash, opReturn]

/-- A script that `isPayToPublicKeyHash` accepts has `OP_HASH160`, no push, as its second
byte, so `isTokenizedOpReturn` reads the version at offset 3, and since it does not start
with `OP_RETURN` the loop rejects it exactly when it is tokenized. -/
theorem rejects_of_isPayToPublicKeyHash {pkScript : List UInt8}
    (hp : isPayToPublicKeyHash pkScript = some true) (hlen : 20 ≤ pkScript.length) :
    rejects ⟨pkScript⟩ = ((pkScript.drop 3).take 4 == targetVersion) := by
  obtain ⟨b0, b1, rest, rfl⟩ : ∃ b0 b1 rest, pkScript = b0 :: b1 :: rest := by
    match pkScript, hlen with
    | b0 :: b1 :: rest, _ => exact ⟨b0, b1, rest, rfl⟩
  have hpre : b0 = 0x76 ∧ b1 = 0xa9 := by
    simpa [isPayToPublicKeyHash, prefixP2PKH] using hp
  obtain ⟨rfl, rfl⟩ := hpre
  have hnopush : ¬(0xa9 : UInt8) < 0x4c := by decide
  simp only [rejects, isTokenizedOpReturn, Nat.not_lt.mpr hlen, hnopush, if_false,
    List.getD_cons_succ, List.getD_cons_zero, show ((0x76 : UInt8) != opReturn) = true by decide,
    Bool.and_true]

/-- Both payments to `hash` are tokenized exactly when `hash` starts with `targetVersion`:
`pkScript[1]` is `OP_HASH160` (read at offset 3) or the 20-byte push (offset 2), and
either way the four bytes read are the first four of `hash`. -/
theorem rejects_payToHash (p2sh : Bool) {hash : List UInt8} (hlen : hash.length = 20) :
    rejects ⟨payToHash p2sh hash⟩ = (hash.take 4 == targetVersion) := by
  have h4 : 4 ≤ hash.length := by omega
  cases p2sh
  · rw [rejects_of_isPayToPublicKeyHash (by simp [isPayToPublicKeyHash, payToHash, prefixP2PKH])
      (by simp [payToHash, hlen])]
    simp [payToHash, List.take_append_of_le_length h4]
  · simp [rejects, isTokenizedOpReturn, payToHash, hlen, List.take_append_of_le_length h4, opReturn]

/-- **Which payments make `NewTransactionFromWire` fail.** For every transaction with
inputs whose outputs are standard payments to 20-byte hashes, it fails with
`ErrInvalidProtocol` exactly when one of the hashes starts with `00 00 00 20`, whatever
`protocol.New` does; otherwise it builds the transaction with no protocol message. -/
theorem newTransactionFromWire_payments (tx : MsgTx) (payments : List (Bool × List UInt8))
    (hin : tx.txIn ≠ []) (hne : payments ≠ []) (hlen : ∀ p ∈ payments, p.2.length = 20)
    (hpay : tx.txOut = payments.map fun p => ⟨payToHash p.1 p.2⟩) :
    newTransactionFromWire protocolNew tx =
      if payments.any (·.2.take 4 == targetVersion) then .error ⟨errInvalidProtocol, "parsing op return"⟩
      else .ok { hash := tx.txHash, msgTx := tx, msgProto := none } := by
  have hrej : ∀ p ∈ payments, rejects ⟨payToHash p.1 p.2⟩ = (p.2.take 4 == targetVersion) :=
    fun p hp => rejects_payToHash p.1 (hlen p hp)
  have hany : tx.txOut.any rejects = payments.any (·.2.take 4 == targetVersion) := by
    rw [hpay, Bool.eq_iff_iff]
    simp only [List.any_eq_true, List.mem_map]
    constructor
    · rintro ⟨_, ⟨p, hp, rfl⟩, h⟩
      exact ⟨p, hp, hrej p hp ▸ h⟩
    · rintro ⟨p, hp, h⟩
      exact ⟨_, ⟨p, hp, rfl⟩, (hrej p hp).trans h⟩
  unfold newTransactionFromWire
  simp only [List.length_eq_zero, hin, hpay, List.map_eq_nil_iff, hne, ite_false]
  rw [foldlM_scanOutput, ← hpay, hany]
  split_ifs with h
  · rfl
  · have htok : tx.txOut.filter (isTokenizedOpReturn ·.pkScript) = [] := by
      rw [List.filter_eq_nil_iff, hpay]
      intro o ho htok
      obtain ⟨p, hp, rfl⟩ := List.mem_map.mp ho
      have hp' := (hrej p hp).symm.trans ((rejects_eq_isTokenizedOpReturn (payToHash_head _ _)).trans htok)
      exact h (List.any_eq_true.mpr ⟨p, hp, hp'⟩)
    rw [htok]
    rfl

/-- Two payments: to a script hash of zeros, and to a public key hash that starts with
`targetVersion`. -/
def twoPayments : List (Bool × List UInt8) :=
  [(true, List.replicate 20 0), (false, targetVersion ++ List.replicate 16 0x11)]

def twoPaymentsTx : MsgTx := ⟨0, [⟨⟨0, 0⟩⟩], twoPayments.map fun p => ⟨payToHash p.1 p.2⟩⟩

theorem newTransactionFromWire_twoPayments :
    twoPaymentsTx.txIn ≠ [] ∧ twoPayments ≠ [] ∧ (∀ p ∈ twoPayments, p.2.length = 20) ∧
      twoPaymentsTx.txOut = twoPayments.map (fun p => ⟨payToHash p.1 p.2⟩) ∧
      newTransactionFromWire (fun _ => (none : Option Unit)) twoPaymentsTx =
        .error ⟨errInvalidProtocol, "parsing op return"⟩ :=
  have hin : twoPaymentsTx.txIn ≠ [] := List.cons_ne_nil _ _
  have hne : twoPayments ≠ [] := List.cons_ne_nil _ _
  have hlen : ∀ p ∈ twoPayments, p.2.length = 20 := by decide
  ⟨hin, hne, hlen, rfl,
    (newTransactionFromWire_payments _ twoPaymentsTx twoPayments hin hne hlen rfl).trans
      (if_pos (by decide))⟩

/-! ### `NewTransaction`: trimming and hex decoding -/

def errDecodeFail : String := "Failed to decode payload"

/-- `strings.Trim(s, cutset)`: `s` without its leading and trailing characters that are in
`cutset`. -/
def trim (s cutset : String) : String :=
  ⟨((s.toList.dropWhile (· ∈ cutset.toList)).reverse.dropWhile (· ∈ cutset.toList)).reverse⟩

/-- `encoding/hex`'s `reverseHexTable`, on the characters it maps to a digit. -/
def reverseHex (c : Char) : Option UInt8 :=
  if '0' ≤ c ∧ c ≤ '9' then some (c.toNat - '0'.toNat).toUInt8
  else if 'a' ≤ c ∧ c ≤ 'f' then some (c.toNat - 'a'.toNat + 10).toUInt8
  else if 'A' ≤ c ∧ c ≤ 'F' then some (c.toNat - 'A'.toNat + 10).toUInt8
  else none

/-- `hex.DecodeString`: two digits a byte, `a << 4 | b`; `none` on a character that is no
hex digit or on an odd length (the code wraps every such error alike). -/
def decodeHex : List Char → Option (List UInt8)
  | [] => some []
  | [_] => none
  | p :: q :: rest => do
    let a ← reverseHex p
    let b ← reverseHex q
    let bytes ← decodeHex rest
    pure (((a <<< 4) ||| b) :: bytes)

/-- `NewTransaction(raw)`, with `tx.Deserialize` the function `deserialize` (`none` on an
error): trim newlines and spaces, decode the hex, deserialize, and build the transaction. -/
def newTransaction (deserialize : List UInt8 → Option MsgTx) (raw : String) :
    Except WrappedError (Transaction Msg) :=
  match decodeHex (trim raw "\n ").toList with
  | none => .error ⟨errDecodeFail, "decoding string"⟩
  | some b =>
    match deserialize b with
    | none => .error ⟨errDecodeFail, "deserializing wire message"⟩
    | some tx => newTransactionFromWire protocolNew tx

/-- `hextable`, the digits `hex.EncodeToString` writes. -/
def hexDigits : List Char :=
  ['0', '1', '2', '3', '4', '5', '6', '7', '8', '9', 'a', 'b', 'c', 'd', 'e', 'f']

/-- `hex.EncodeToString`: each byte as two digits, high nibble first. -/
def encodeHex : List UInt8 → List Char
  | [] => []
  | x :: xs => hexDigits.getD (x.toNat / 16) '0' :: hexDigits.getD (x.toNat % 16) '0' :: encodeHex xs

theorem reverseHex_hexDigits : ∀ k < 16, reverseHex (hexDigits.getD k '0') = some (UInt8.ofNat k) := by
  decide

theorem hexDigits_getD_mem : ∀ k < 16, hexDigits.getD k '0' ∈ hexDigits := by decide

theorem hexDigits_not_mem_cutset : ∀ c ∈ hexDigits, c ∉ "\n ".toList := by decide

theorem ofNat_toNat_uint8 (x : UInt8) : UInt8.ofNat x.toNat = x :=
  UInt8.toNat.inj (by simp [UInt8.ofNat, Fin.ofNat, UInt8.toNat])

set_option maxRecDepth 4000 in
/-- A byte is its two nibbles put back together as `hex.Decode` does. -/
theorem nibbles_eq (x : UInt8) :
    (UInt8.ofNat (x.toNat / 16) <<< 4) ||| UInt8.ofNat (x.toNat % 16) = x := by
  have h : ∀ n < 256, (UInt8.ofNat (n / 16) <<< 4) ||| UInt8.ofNat (n % 16) = UInt8.ofNat n := by
    decide
  simpa only [ofNat_toNat_uint8] using h x.toNat x.val.isLt

/-- `hex.DecodeString` reads back every byte string `EncodeToString` writes. -/
theorem decodeHex_encodeHex (bytes : List UInt8) : decodeHex (encodeHex bytes) = some bytes := by
  induction bytes with
  | nil => rfl
  | cons x xs ih =>
    have hx : x.toNat < 256 := x.val.isLt
    simp only [encodeHex, decodeHex, reverseHex_hexDigits _ (show x.toNat / 16 < 16 by omega),
      reverseHex_hexDigits _ (show x.toNat % 16 < 16 by omega), ih]
    simp [nibbles_eq]

/-- One character more than an encoding is an odd length. -/
theorem decodeHex_encodeHex_append (bytes : List UInt8) (c : Char) :
    decodeHex (encodeHex bytes ++ [c]) = none := by
  induction bytes with
  | nil => rfl
  | cons x xs ih => simp [encodeHex, decodeHex, ih]

theorem mem_encodeHex {bytes : List UInt8} {c : Char} (hc : c ∈ encodeHex bytes) : c ∈ hexDigits := by
  induction bytes with
  | nil => cases hc
  | cons x xs ih =>
    have hx : x.toNat < 256 := x.val.isLt
    simp only [encodeHex, List.mem_cons] at hc
    rcases hc with rfl | rfl | hc
    · exact hexDigits_getD_mem _ (by omega)
    · exact hexDigits_getD_mem _ (by omega)
    · exact ih hc

theorem dropWhile_eq_self_of_forall {p : Char → Bool} {l : List Char} (h : ∀ c ∈ l, ¬p c) :
    l.dropWhile p = l := by
  cases l with
  | nil => rfl
  | cons c l => exact List.dropWhile_cons_of_neg (h c (List.mem_cons_self c l))

/-- `strings.Trim` removes exactly the padding around a core with no character of the
cutset. -/
theorem trim_eq {pre mid post : List Char} {cutset : String} (hpre : ∀ c ∈ pre, c ∈ cutset.toList)
    (hmid : ∀ c ∈ mid, c ∉ cutset.toList) (hpost : ∀ c ∈ post, c ∈ cutset.toList) :
    trim ⟨pre ++ mid ++ post⟩ cutset = ⟨mid⟩ := by
  have hp : ∀ c ∈ pre, decide (c ∈ cutset.data) = true := fun c hc => decide_eq_true (hpre c hc)
  have hq : ∀ c ∈ post.reverse, decide (c ∈ cutset.data) = true :=
    fun c hc => decide_eq_true (hpost c (List.mem_reverse.mp hc))
  have hm : ∀ c ∈ mid.reverse, ¬decide (c ∈ cutset.data) = true :=
    fun c hc h => hmid c (List.mem_reverse.mp hc) (of_decide_eq_true h)
  simp only [trim, String.toList, List.append_assoc, List.dropWhile_append_of_pos hp]
  cases mid with
  | nil => simp [List.dropWhile_eq_nil_iff.mpr fun c hc => hq c (List.mem_reverse.mpr hc)]
  | cons d ds =>
    rw [List.cons_append, @List.dropWhile_cons_of_neg _ (fun c => decide (c ∈ cutset.data)) d _
      (hm d (by simp)), ← List.cons_append, List.reverse_append,
      List.dropWhile_append_of_pos hq, dropWhile_eq_self_of_forall hm, List.reverse_reverse]

/-- **`NewTransaction` reads back every hex-encoded transaction**, whatever newlines and
spaces pad it: for every byte string, the result is that of deserializing those bytes and
building the transaction from them. -/
theorem newTransaction_encodeHex (deserialize : List UInt8 → Option MsgTx) (bytes : List UInt8)
    {pre post : List Char} (hpre : ∀ c ∈ pre, c = '\n' ∨ c = ' ')
    (hpost : ∀ c ∈ post, c = '\n' ∨ c = ' ') :
    newTransaction protocolNew deserialize ⟨pre ++ encodeHex bytes ++ post⟩ =
      match deserialize bytes with
      | none => .error ⟨errDecodeFail, "deserializing wire message"⟩
      | some tx => newTransactionFromWire protocolNew tx := by
  have hcut : ∀ c, c = '\n' ∨ c = ' ' → c ∈ "\n ".toList := by rintro c (rfl | rfl) <;> decide
  rw [newTransaction, trim_eq (fun c hc => hcut c (hpre c hc))
    (fun c hc => hexDigits_not_mem_cutset c (mem_encodeHex hc)) (fun c hc => hcut c (hpost c hc))]
  simp only [String.toList, decodeHex_encodeHex]

theorem newTransaction_encodeHex_padded :
    (∀ c ∈ [' '], c = '\n' ∨ c = ' ') ∧ (∀ c ∈ ['\n'], c = '\n' ∨ c = ' ') ∧
      newTransaction (fun _ => (none : Option Unit)) (fun _ => none)
          ⟨[' '] ++ encodeHex [0x01, 0xab] ++ ['\n']⟩ =
        .error ⟨errDecodeFail, "deserializing wire message"⟩ :=
  have hpre : ∀ c ∈ [' '], c = '\n' ∨ c = ' ' := by decide
  have hpost : ∀ c ∈ ['\n'], c = '\n' ∨ c = ' ' := by decide
  ⟨hpre, hpost, newTransaction_encodeHex _ _ _ hpre hpost⟩

/-- **A carriage return is not trimmed**: a hex-encoded transaction followed by `\r`, as a
line ending `\r\n` leaves it, is rejected with `ErrDecodeFail` whatever its bytes are. -/
theorem newTransaction_carriageReturn (deserialize : List UInt8 → Option MsgTx) (bytes : List UInt8)
    {pre post : List Char} (hpre : ∀ c ∈ pre, c = '\n' ∨ c = ' ')
    (hpost : ∀ c ∈ post, c = '\n' ∨ c = ' ') :
    newTransaction protocolNew deserialize ⟨pre ++ encodeHex bytes ++ '\r' :: post⟩ =
      .error ⟨errDecodeFail, "decoding string"⟩ := by
  have hcut : ∀ c, c = '\n' ∨ c = ' ' → c ∈ "\n ".toList := by rintro c (rfl | rfl) <;> decide
  have hmid : ∀ c ∈ encodeHex bytes ++ ['\r'], c ∉ "\n ".toList := by
    intro c hc
    rcases List.mem_append.mp hc with hc | hc
    · exact hexDigits_not_mem_cutset c (mem_encodeHex hc)
    · rw [List.mem_singleton.mp hc]
      decide
  rw [show pre ++ encodeHex bytes ++ '\r' :: post = pre ++ (encodeHex bytes ++ ['\r']) ++ post by simp,
    newTransaction, trim_eq (fun c hc => hcut c (hpre c hc)) hmid (fun c hc => hcut c (hpost c hc))]
  simp only [String.toList, decodeHex_encodeHex_append]

theorem newTransaction_carriageReturn_crlf :
    (∀ c ∈ ([] : List Char), c = '\n' ∨ c = ' ') ∧ (∀ c ∈ ['\n'], c = '\n' ∨ c = ' ') ∧
      newTransaction (fun _ => (none : Option Unit)) (fun _ => none)
          ⟨[] ++ encodeHex [0x01, 0xab] ++ '\r' :: ['\n']⟩ =
        .error ⟨errDecodeFail, "decoding string"⟩ :=
  have hpre : ∀ c ∈ ([] : List Char), c = '\n' ∨ c = ' ' := by decide
  have hpost : ∀ c ∈ ['\n'], c = '\n' ∨ c = ' ' := by decide
  ⟨hpre, hpost, newTransaction_carriageReturn _ _ _ hpre hpost⟩

/-! ### The data push the version should be read from -/

/-- A little-endian length field. -/
def readLE (bytes : List UInt8) : Nat := bytes.foldr (fun b n => b.toNat + 256 * n) 0

/-- The data push that opcode `op` opens, as Bitcoin script reads it: how many length bytes
follow the opcode, and how many bytes it pushes (`rest` is what follows the opcode). A
direct push `0x01`-`0x4b` pushes `op` bytes; `OP_PUSHDATA1`, `2` and `4` (`0x4c`-`0x4e`)
read their length from the next 1, 2 or 4 bytes. -/
def pushHeader (op : UInt8) (rest : List UInt8) : Option (Nat × Nat) :=
  if 0x01 ≤ op ∧ op ≤ 0x4b then some (0, op.toNat)
  else if op = 0x4c then some (1, readLE (rest.take 1))
  else if op = 0x4d then some (2, readLE (rest.take 2))
  else if op = 0x4e then some (4, readLE (rest.take 4))
  else none

/-- A protocol output by the structure of its script: `pkScript[1]` opens a data push of
at least four bytes, and the pushed data starts with `targetVersion`. -/
def isProtocolPush (pkScript : List UInt8) : Bool :=
  match pkScript with
  | _ :: op :: rest =>
    match pushHeader op rest with
    | some (k, len) => 4 ≤ len && (rest.drop k).take 4 == targetVersion
    | none => false
  | _ => false

/-- Where the two readings agree: on a script of 20 bytes or more whose second byte is a
direct push of four bytes or more, or an `OP_PUSHDATA1` of four bytes or more,
`isTokenizedOpReturn` reads the version where the push puts its data. -/
theorem isTokenizedOpReturn_eq_isProtocolPush (b op : UInt8) (rest : List UInt8)
    (hlen : 18 ≤ rest.length)
    (hop : 4 ≤ op.toNat ∧ op.toNat ≤ 0x4b ∨ op = 0x4c ∧ 4 ≤ (rest.getD 0 0).toNat) :
    isTokenizedOpReturn (b :: op :: rest) = isProtocolPush (b :: op :: rest) := by
  rcases hop with ⟨h4, h4b⟩ | ⟨rfl, h4⟩
  · have hdirect : 0x01 ≤ op ∧ op ≤ 0x4b := ⟨show 1 ≤ op.toNat by omega, h4b⟩
    have hlt : op < 0x4c := show op.toNat < 0x4c by omega
    simp [isTokenizedOpReturn, isProtocolPush, pushHeader, hlen, hdirect, hlt, h4]
  · obtain ⟨x, rest, rfl⟩ : ∃ x rest', rest = x :: rest' :=
      List.exists_cons_of_ne_nil (List.ne_nil_of_length_pos (by omega))
    simp only [List.getD_cons_zero] at h4
    simp only [List.length_cons] at hlen
    simp [isTokenizedOpReturn, isProtocolPush, pushHeader, readLE, show 17 ≤ rest.length by omega, h4]

/-- An `OP_RETURN` protocol message pushed directly, four bytes at a time. -/
theorem isTokenizedOpReturn_eq_isProtocolPush_direct :
    18 ≤ (targetVersion ++ List.replicate 14 0).length ∧
      (4 ≤ (0x04 : UInt8).toNat ∧ (0x04 : UInt8).toNat ≤ 0x4b ∨
        (0x04 : UInt8) = 0x4c ∧ 4 ≤ ((targetVersion ++ List.replicate 14 0).getD 0 0).toNat) ∧
      isTokenizedOpReturn (0x6a :: 0x04 :: (targetVersion ++ List.replicate 14 0)) =
        isProtocolPush (0x6a :: 0x04 :: (targetVersion ++ List.replicate 14 0)) :=
  have hlen : 18 ≤ (targetVersion ++ List.replicate 14 0).length := by decide
  have hop : 4 ≤ (0x04 : UInt8).toNat ∧ (0x04 : UInt8).toNat ≤ 0x4b ∨
      (0x04 : UInt8) = 0x4c ∧ 4 ≤ ((targetVersion ++ List.replicate 14 0).getD 0 0).toNat :=
    .inl ⟨by decide, by decide⟩
  ⟨hlen, hop, isTokenizedOpReturn_eq_isProtocolPush _ _ _ hlen hop⟩

/-- An `OP_RETURN` protocol message pushed with `OP_PUSHDATA2` (16 bytes of data). -/
def pushData2Script : List UInt8 :=
  [0x6a, 0x4d, 0x10, 0x00, 0x00, 0x00, 0x00, 0x20] ++ List.replicate 12 0

/-- A pay-to-public-key-hash script `76 a9 14 <hash> 88 ac` whose public key hash starts
with `00 00 00 20`. -/
def payToPubKeyHashScript : List UInt8 :=
  [0x76, 0xa9, 0x14, 0x00, 0x00, 0x00, 0x20] ++ List.replicate 16 0x11 ++ [0x88, 0xac]

/-- **The code reads the version at the wrong offset for every push but `OP_PUSHDATA1`.**
A protocol message pushed with `OP_PUSHDATA2` is not tokenized, since the version sits at
offset 4 and the code reads offset 3; and a payment script, whose second byte `OP_HASH160`
is no push, is tokenized, and `NewTransactionFromWire` then rejects a transaction that
pays to it with `ErrInvalidProtocol`, whatever `protocol.New` does. -/
theorem isTokenizedOpReturn_misreads_push :
    (20 ≤ pushData2Script.length ∧ isProtocolPush pushData2Script = true ∧
        isTokenizedOpReturn pushData2Script = false) ∧
      (20 ≤ payToPubKeyHashScript.length ∧ isProtocolPush payToPubKeyHashScript = false ∧
        isTokenizedOpReturn payToPubKeyHashScript = true ∧
        ∀ {Msg : Type} (protocolNew : List UInt8 → Option Msg) (hash : Hash) (txIn : TxIn),
          newTransactionFromWire protocolNew ⟨hash, [txIn], [⟨payToPubKeyHashScript⟩]⟩ =
            .error ⟨errInvalidProtocol, "parsing op return"⟩) :=
  ⟨by decide, by decide, by decide, by decide, fun _ _ _ => rfl⟩

end SmartContract.Inspector
