/-
The attributes two peers exchange before they connect (`Controller::prepareConnection`, `Controller::setupConnection`
and the `setupConnection` of the UD endpoint). One side prints its lid, its gid and its queue pair numbers; the other
one reads them back with `stoi` and string streams. The transport of the strings is not part of it.

`int value;` in the gid loops is not initialised: what it holds is an argument (`raw`), one for each turn.
-/
import RapidTransfer.Controller.Basic
import RapidTransfer.Lib.Bytes
import RapidTransfer.Lib.Text

namespace RapidTransfer

open Text

/-- `Attributes`, an `std::unordered_map` of strings. -/
abbrev Attributes := String → Option (List Char)

/-- `ibv_gid`: sixteen bytes. -/
structure Gid where
  raw : List UInt8
  length_raw : raw.length = 16
  deriving DecidableEq, Repr

/-- The gid as the key of `node_id_map_`. -/
def Gid.key (gid : Gid) : BitVec 128 := BitVec.ofNat 128 (Bytes.ofLe gid.raw)

namespace Attributes

/-! ## Printing -/

/-- `ToString` -/
def toString (list : List UInt32) : List Char := list.flatMap fun entry => ' ' :: decimal entry.toNat

/-- The bytes of a gid in hexadecimal, with colons between them. -/
def gidString : List UInt8 → List Char
  | [] => []
  | b :: bs => hexByte b ++ bs.flatMap fun b => ':' :: hexByte b

/-- The four attributes set in a map. -/
def write (attrs : Attributes) (lid : UInt16) (gid : Gid) (qpNum extQpNum : List UInt32) : Attributes :=
  let attrs := Function.update attrs "lid" (some (decimal lid.toNat))
  let attrs := Function.update attrs "gid" (some (gidString gid.raw))
  let attrs := Function.update attrs "qp" (some (toString qpNum))
  Function.update attrs "ext_qp" (some (toString extQpNum))

/-! ## Reading -/

/-- The loop of `FromString`. -/
def readAll (s : IStringStream) : List UInt32 :=
  match _hread : s.readUInt32 with
  | (none, _) => []
  | (some val, s') => val :: readAll s'
termination_by s.rest.length
decreasing_by exact IStringStream.readUInt32_rest_lt _hread

/-- `FromString` -/
def fromString (str : List Char) : List UInt32 := readAll (.ofText str)

/-- The gid loop for the last `n` bytes: the colon is dropped after every byte but the last one. -/
def readGid (raw : Nat → Int) : Nat → IStringStream → List UInt8
  | 0, _ => []
  | n + 1, s =>
    let (value, s) := s.readHex (raw n)
    UInt8.ofInt value :: readGid raw n (if n = 0 then s else s.ignoreOne)

theorem length_readGid (raw : Nat → Int) : ∀ (n : Nat) (s : IStringStream), (readGid raw n s).length = n
  | 0, _ => rfl
  | n + 1, s => by rw [readGid, List.length_cons, length_readGid raw n]

def parseGid (raw : Nat → Int) (str : List Char) : Gid := ⟨readGid raw 16 (.ofText str), length_readGid raw 16 _⟩

end Attributes

open Attributes

/-- What `setupConnection` sets in a `RdmaUDEndPoint`; `dgid` is in its address handle. -/
structure RdmaUDEndPoint where
  connected : Bool
  dgid : Gid
  peerGid : List Char
  peerLid : UInt16
  peerQpNumList : List UInt32

/-- `RdmaUDEndPoint::setupConnection`, with whether the address handle can be created. -/
def RdmaUDEndPoint.setupConnection (ep : RdmaUDEndPoint) (peerGid : List Char) (peerLid : UInt16)
    (peerQpNumList : List UInt32) (ahCreated : Bool) (raw : Nat → Int) : Int × RdmaUDEndPoint :=
  if ep.connected then (0, ep)
  else
    let peerGidRaw := parseGid raw peerGid
    if !ahCreated then (-1, ep)
    else
      (0, { connected := true, dgid := peerGidRaw, peerGid := peerGid, peerLid := peerLid,
            peerQpNumList := peerQpNumList })

namespace Controller

/-- `prepareConnection`: the queue pairs of the endpoint, if there is one, and after them those of the groups. -/
def prepareConnection (attrs : Attributes) (lid : UInt16) (gid : Gid) (endpoint : Option (List UInt32))
    (multicast : List (List UInt32)) : Int × Attributes :=
  match endpoint with
  | none => (-1, attrs)
  | some qpNum =>
    let extQpNumList := multicast.foldl (· ++ ·) qpNum
    (0, attrs.write lid gid qpNum extQpNumList)

/-- `setupConnection`, `none` where `stoi` throws. -/
def setupConnection (c : Controller) (endpoint : Option RdmaUDEndPoint) (peerAddr : String) (peer : Attributes)
    (ahCreated : Bool) (raw raw' : Nat → Int) : Option (Int × Option RdmaUDEndPoint × Controller) :=
  match endpoint with
  | none => some (-1, none, c)
  | some ep =>
    match peer "lid", peer "gid", peer "qp", peer "ext_qp" with
    | some lidStr, some gid, some qp, some extQp =>
      (stoi lidStr).map fun value =>
        let lid := UInt16.ofInt value
        let (ret, ep) := ep.setupConnection gid lid (fromString qp) ahCreated raw
        if ret ≠ 0 then (ret, some ep, c)
        else (0, some ep, c.registerNode peerAddr (parseGid raw' gid).key ((fromString extQp).map UInt32.toNat))
    | _, _, _, _ => some (-1, some ep, c)

end Controller

/-! ## Round trips -/

namespace Attributes

theorem ends_toString (list : List UInt32) : Ends 10 (toString list) := by
  cases list with
  | nil => rintro c ⟨⟩
  | cons v vs =>
    rintro c ⟨⟩
    rfl

theorem ends_colons (bs : List UInt8) : Ends 16 (bs.flatMap fun b => ':' :: hexByte b) := by
  cases bs with
  | nil => rintro c ⟨⟩
  | cons b bs =>
    rintro c ⟨⟩
    rfl

/-- The stream is at its end after the last number only. -/
theorem readAll_toString : ∀ (list : List UInt32) (eof : Bool), (eof = true → list = []) →
    readAll ⟨toString list, eof, false⟩ = list
  | [], eof, _ => by
    obtain ⟨s, hs⟩ := IStringStream.readUInt32_end eof
    unfold readAll
    split
    · rfl
    · rename_i val s' hval
      rw [show toString [] = [] from rfl, hs] at hval
      cases hval
  | v :: vs, eof, heof => by
    obtain rfl : eof = false := by
      by_contra h
      cases heof (Bool.eq_true_of_not_eq_false h)
    have hspace : ∀ c ∈ [' '], isSpace c = true := by simp [isSpace]
    have hread := IStringStream.readUInt32_decimal hspace v (ends_toString vs)
    have htail := readAll_toString vs (toString vs).isEmpty (by
      intro hempty
      cases vs with
      | nil => rfl
      | cons w ws => cases hempty)
    unfold readAll
    split
    · rename_i s hnone
      rw [show toString (v :: vs) = [' '] ++ (decimal v.toNat ++ toString vs) from rfl, hread] at hnone
      cases hnone
    · rename_i val s' hval
      rw [show toString (v :: vs) = [' '] ++ (decimal v.toNat ++ toString vs) from rfl, hread] at hval
      cases hval
      rw [htail]

theorem fromString_toString (list : List UInt32) : fromString (toString list) = list :=
  readAll_toString list false (by simp)

theorem readGid_gidString (raw : Nat → Int) : ∀ (b : UInt8) (bs : List UInt8),
    readGid raw (bs.length + 1) ⟨gidString (b :: bs), false, false⟩ = b :: bs
  | b, bs => by
    have hread := IStringStream.readHex_hexByte b (ends_colons bs) (raw bs.length)
    have hbyte : UInt8.ofInt (b.toNat : Int) = b := by
      have hlt := b.toNat_lt
      apply UInt8.toNat_inj.1
      simp only [UInt8.ofInt, UInt8.toNat_ofNat']
      omega
    rw [readGid, gidString, hread]
    simp only [hbyte]
    cases bs with
    | nil => rfl
    | cons b' bs =>
      have htail := readGid_gidString raw b' bs
      rw [List.length_cons, if_neg (Nat.succ_ne_zero _)]
      exact congrArg (b :: ·) htail

theorem parseGid_gidString (raw : Nat → Int) (gid : Gid) : parseGid raw (gidString gid.raw) = gid := by
  obtain ⟨bytes, hlen⟩ := gid
  cases bytes with
  | nil => cases hlen
  | cons b bs =>
    have hread := readGid_gidString raw b bs
    rw [List.length_cons] at hlen
    rw [hlen] at hread
    unfold parseGid
    simp only [Gid.mk.injEq]
    exact hread

theorem stoi_lid (lid : UInt16) : (stoi (decimal lid.toNat)).map UInt16.ofInt = some lid := by
  have hlt := lid.toNat_lt
  rw [stoi_decimal (by omega), Option.map_some]
  congr 1
  apply UInt16.toNat_inj.1
  simp only [UInt16.ofInt, UInt16.toNat_ofNat']
  omega

end Attributes

/-- Different gids are different keys. -/
theorem Gid.key_injective : Function.Injective Gid.key := by
  intro a b h
  have hlt : ∀ g : Gid, Bytes.ofLe g.raw < 2 ^ 128 := by
    intro g
    have := Bytes.ofLe_lt g.raw
    rw [g.length_raw] at this
    exact this
  have hof : Bytes.ofLe a.raw = Bytes.ofLe b.raw := by
    have := congrArg BitVec.toNat h
    unfold Gid.key at this
    rwa [BitVec.toNat_ofNat, BitVec.toNat_ofNat, Nat.mod_eq_of_lt (hlt a), Nat.mod_eq_of_lt (hlt b)] at this
  have hraw : a.raw = b.raw := by
    rw [← Bytes.toLe_ofLe a.raw, ← Bytes.toLe_ofLe b.raw, a.length_raw, b.length_raw, hof]
  cases a
  cases b
  cases hraw
  rfl

namespace Controller

/-- The peer that reads the attributes connects its endpoint to the lid, the gid and the queue pairs that were written,
unless it was connected before, and registers the node with the gid and the queue pairs of the second list. The
attributes that `prepareConnection` writes are of this kind. -/
theorem attributes_round_trip (attrs : Attributes) (lid : UInt16) (gid : Gid) (qpNum extQpNum : List UInt32)
    (c : Controller) (ep : RdmaUDEndPoint) (peerAddr : String) (raw raw' : Nat → Int) :
    c.setupConnection (some ep) peerAddr (attrs.write lid gid qpNum extQpNum) true raw raw' =
      some (0, some (if ep.connected then ep else ⟨true, gid, gidString gid.raw, lid, qpNum⟩),
        c.registerNode peerAddr gid.key (extQpNum.map UInt32.toNat)) ∧
    ∀ multicast : List (List UInt32), prepareConnection attrs lid gid (some qpNum) multicast =
      (0, attrs.write lid gid qpNum (qpNum ++ multicast.flatten)) := by
  have hlid : (attrs.write lid gid qpNum extQpNum) "lid" = some (decimal lid.toNat) := by simp [write]
  have hgid : (attrs.write lid gid qpNum extQpNum) "gid" = some (gidString gid.raw) := by simp [write]
  have hqp : (attrs.write lid gid qpNum extQpNum) "qp" = some (Attributes.toString qpNum) := by simp [write]
  have hext : (attrs.write lid gid qpNum extQpNum) "ext_qp" = some (Attributes.toString extQpNum) := by simp [write]
  obtain ⟨value, hvalue, hcast⟩ := Option.map_eq_some_iff.1 (stoi_lid lid)
  constructor
  · unfold setupConnection RdmaUDEndPoint.setupConnection
    simp only [hlid, hgid, hqp, hext, hvalue, Option.map_some, hcast, fromString_toString, parseGid_gidString]
    cases ep.connected <;> rfl
  · intro multicast
    have hflat : ∀ (ls : List (List UInt32)) (l : List UInt32), ls.foldl (· ++ ·) l = l ++ ls.flatten := by
      intro ls
      induction ls with
      | nil => simp
      | cons x xs ih => intro l; rw [List.foldl_cons, ih, List.flatten_cons, List.append_assoc]
    unfold prepareConnection
    simp only [hflat]

end Controller

end RapidTransfer
