import Msgbox.Types

/-!
# Headers on the wire

`set_header` writes the three header fields in network byte order in front of the payload,
and `read_header` converts them back.

## Key results

- `decodeHeader_encodeHeader`: reading back a written header
- `kind_code`: a message type is recovered from its code
- `decodeHeader_prefix`: a header is read from the first eight bytes alone
-/

namespace Msgbox

/-- `htons`, as the two bytes in memory. -/
def putU16 (v : UInt16) : List UInt8 :=
  [UInt8.ofNat (v.toNat / 256), UInt8.ofNat v.toNat]

/-- `htonl`, as the four bytes in memory. -/
def putU32 (v : UInt32) : List UInt8 :=
  [UInt8.ofNat (v.toNat / 16777216), UInt8.ofNat (v.toNat / 65536),
    UInt8.ofNat (v.toNat / 256), UInt8.ofNat v.toNat]

/-- `ntohs` of the first two bytes. -/
def getU16 (bs : List UInt8) : UInt16 :=
  UInt16.ofNat ((bs.getD 0 0).toNat * 256 + (bs.getD 1 0).toNat)

/-- `ntohl` of the first four bytes. -/
def getU32 (bs : List UInt8) : UInt32 :=
  UInt32.ofNat ((bs.getD 0 0).toNat * 16777216 + (bs.getD 1 0).toNat * 65536
    + (bs.getD 2 0).toNat * 256 + (bs.getD 3 0).toNat)

def encodeHeader (h : Header) : List UInt8 :=
  putU16 h.messageType ++ putU16 h.replyId ++ putU32 h.numBytes

def decodeHeader (bs : List UInt8) : Header :=
  { messageType := getU16 bs
    replyId := getU16 (bs.drop 2)
    numBytes := getU32 (bs.drop 4) }

/-- `set_header`; `num_bytes` is cut to its low 32 bits. -/
def setHeader (msgType : MsgType) (replyId : UInt16) (numBytes : Nat) : List UInt8 :=
  encodeHeader ⟨msgType.code, replyId, UInt32.ofNat numBytes⟩

@[simp] theorem length_encodeHeader (h : Header) : (encodeHeader h).length = headerLen := rfl

@[simp] theorem length_setHeader (t : MsgType) (id : UInt16) (n : Nat) :
    (setHeader t id n).length = headerLen := rfl

/-! ## Round trip -/

theorem getU16_putU16 (v : UInt16) (rest : List UInt8) : getU16 (putU16 v ++ rest) = v := by
  have hv : v.toNat < 65536 := v.toNat_lt
  apply UInt16.toNat_inj.mp
  simp only [getU16, putU16, List.cons_append, List.nil_append, List.getD_cons_zero,
    List.getD_cons_succ, UInt8.toNat_ofNat', UInt16.toNat_ofNat']
  omega

theorem getU32_putU32 (v : UInt32) (rest : List UInt8) : getU32 (putU32 v ++ rest) = v := by
  have hv : v.toNat < 4294967296 := v.toNat_lt
  apply UInt32.toNat_inj.mp
  simp only [getU32, putU32, List.cons_append, List.nil_append, List.getD_cons_zero,
    List.getD_cons_succ, UInt8.toNat_ofNat', UInt32.toNat_ofNat']
  omega

/-- Reading the header of a frame gives the header that was written. -/
@[simp] theorem decodeHeader_encodeHeader (h : Header) (rest : List UInt8) :
    decodeHeader (encodeHeader h ++ rest) = h := by
  have htype := getU16_putU16 h.messageType (putU16 h.replyId ++ (putU32 h.numBytes ++ rest))
  have hid := getU16_putU16 h.replyId (putU32 h.numBytes ++ rest)
  have hlen := getU32_putU32 h.numBytes rest
  have hdrop2 : (encodeHeader h ++ rest).drop 2 =
      putU16 h.replyId ++ (putU32 h.numBytes ++ rest) := rfl
  have hdrop4 : (encodeHeader h ++ rest).drop 4 = putU32 h.numBytes ++ rest := rfl
  simp only [decodeHeader, hdrop2, hdrop4, hid, hlen]
  simp only [encodeHeader, List.append_assoc, htype]

/-- The switch on a header takes the case whose code was written. -/
theorem kind_code (t : MsgType) (id : UInt16) (n : UInt32) :
    Header.kind ⟨t.code, id, n⟩ = t := by
  cases t <;> rfl

/-- The header is in the first eight bytes. -/
theorem decodeHeader_prefix {bs f : List UInt8} (h : bs <+: f) (hlen : headerLen ≤ bs.length) :
    decodeHeader bs = decodeHeader f := by
  obtain ⟨rest, rfl⟩ := h
  have hget : ∀ n j, n + j < headerLen → ((bs ++ rest).drop n).getD j 0 = (bs.drop n).getD j 0 := by
    intro n j hj
    simp only [List.getD_eq_getElem?_getD, List.getElem?_drop]
    rw [List.getElem?_append_left (by omega)]
  have hget₀ : ∀ j, j < headerLen → (bs ++ rest).getD j 0 = bs.getD j 0 := by
    intro j hj
    exact hget 0 j (by omega)
  simp only [decodeHeader, getU16, getU32]
  rw [hget₀ 0 (by decide), hget₀ 1 (by decide), hget 2 0 (by decide), hget 2 1 (by decide),
    hget 4 0 (by decide), hget 4 1 (by decide), hget 4 2 (by decide), hget 4 3 (by decide)]

end Msgbox
