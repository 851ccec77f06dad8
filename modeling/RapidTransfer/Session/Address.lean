/-
`SessionManager::isMulticastAddress` (`session_manager.cpp`), which `RapidTransfer::makeConnectionIfNeeded` asks about
every peer name it is given. It cuts the name at its dots and reads every piece with `stoi`: a name that is not made of
numbers makes it throw, among them the names `server/N` that the session manager itself gives to the peers it accepts,
and a piece with blanks, a sign, a rest behind its digits or a number above 255 passes for a component of an address.
-/
import RapidTransfer.Lib.Text

namespace RapidTransfer.SessionManager

open Text

/-- The loop of `isMulticastAddress`, `none` where `stoi` throws. -/
def readBytes (s : IStringStream) : Option (List Int) :=
  match _hline : s.getline '.' with
  | (none, _) => some []
  | (some token, s') => (stoi token).bind fun byte => (readBytes s').map (byte :: ·)
termination_by s.rest.length
decreasing_by exact IStringStream.getline_rest_lt _hline

/-- What `isMulticastAddress` does with the numbers it has read. -/
def isMulticast (bytes : List Int) : Bool :=
  if bytes.length ≠ 4 then false else decide (224 ≤ bytes.getD 0 0) && decide (bytes.getD 0 0 ≤ 239)

def isMulticastAddress (address : List Char) : Option Bool :=
  if ':' ∈ address then some false else (readBytes (.ofText address)).map isMulticast

/-- The name `exchangeMetadata` gives to a peer. -/
def serverName (uid : Nat) : List Char := "server/".toList ++ decimal uid

/-! ## What an address is -/

/-- A decimal component: digits and nothing else. -/
structure Component (text : List Char) (n : Nat) : Prop where
  digits : ∃ ds : List Nat, ds ≠ [] ∧ (∀ d ∈ ds, d < 10) ∧ text = ds.map Nat.digitChar ∧ n = Nat.ofDigits 10 ds.reverse
  le : n ≤ 255

/-- A dotted quad in the range of multicast addresses. -/
def MulticastQuad (address : List Char) : Prop :=
  ∃ pieces : List (List Char), pieces.length = 4 ∧ address = ['.'].intercalate pieces ∧
    (∀ piece ∈ pieces, ∃ n, Component piece n) ∧ ∃ n, Component (pieces.getD 0 []) n ∧ 224 ≤ n ∧ n ≤ 239

/-! ## The loop -/

section loop

variable {s s' : IStringStream} {token : List Char}

theorem readBytes_none (h : s.getline '.' = (none, s')) : readBytes s = some [] := by
  unfold readBytes
  split
  · rfl
  · rename_i h'
    rw [h] at h'
    cases h'

theorem readBytes_some (h : s.getline '.' = (some token, s')) :
    readBytes s = (stoi token).bind fun byte => (readBytes s').map (byte :: ·) := by
  rw [readBytes]
  split
  · rename_i h'
    rw [h] at h'
    cases h'
  · rename_i h'
    rw [h] at h'
    cases h'
    rfl

end loop

/-- The loop reads the pieces of the text one after the other. -/
theorem readBytes_eq (text : List Char) : readBytes ⟨text, false, false⟩ = (split '.' text).mapM stoi := by
  induction hlen : text.length using Nat.strong_induction_on generalizing text with
  | _ n ih =>
    obtain ⟨rfl, s, hline⟩ | ⟨hne, hdot, hline⟩ | ⟨piece, cs, rfl, hpiece, hline⟩ :=
      @IStringStream.getline_cases '.' text
    · rw [readBytes_none hline]
      rfl
    · -- the last piece: the stream is at its end
      rw [readBytes_some hline, split_of_notMem hne hdot, @readBytes_none ⟨[], true, false⟩ _ rfl, List.mapM_cons]
      rfl
    · rw [readBytes_some hline, split_append hpiece, List.mapM_cons, ih cs.length (by simp [← hlen]; omega) cs rfl]
      cases stoi piece with
      | none => rfl
      | some byte => cases (split '.' cs).mapM stoi <;> rfl

/-! ## Components -/

section component

variable {piece : List Char} {n : Nat}

theorem Component.stoi_eq (h : Component piece n) : stoi piece = some (n : Int) := by
  obtain ⟨⟨ds, hne, hlt, rfl, rfl⟩, hle⟩ := h
  refine stoi_eq_some_iff.2
    ⟨⟨false, ds⟩, [], ⟨⟨[], [], by simp, ?_, .inl ⟨rfl, rfl⟩⟩, hne, hlt, ?_⟩, rfl, by omega, by omega⟩
  · rintro c ⟨⟩
  · rintro c ⟨⟩

/-- The characters of a component are digits. -/
theorem Component.ne_nil_and_notMem (h : Component piece n) : piece ≠ [] ∧ '.' ∉ piece ∧ ':' ∉ piece := by
  obtain ⟨⟨ds, hne, hlt, rfl, -⟩, -⟩ := h
  exact ⟨by simpa using hne, notMem_digitChar (by norm_num) hlt rfl, notMem_digitChar (by norm_num) hlt rfl⟩

/-- The pieces of a dotted quad are its components. -/
theorem multicastQuad_iff {address : List Char} : MulticastQuad address ↔
    (split '.' address).length = 4 ∧ address.getLast? ≠ some '.' ∧
      (∀ piece ∈ split '.' address, ∃ n, Component piece n) ∧
      ∃ n, Component ((split '.' address).getD 0 []) n ∧ 224 ≤ n ∧ n ≤ 239 := by
  constructor
  · rintro ⟨pieces, hlen, rfl, hcomp, hfirst⟩
    have hpieces : ∀ piece ∈ pieces, piece ≠ [] ∧ '.' ∉ piece := by
      intro piece hpiece
      obtain ⟨n, hn⟩ := hcomp piece hpiece
      exact ⟨hn.ne_nil_and_notMem.1, hn.ne_nil_and_notMem.2.1⟩
    have hne : pieces ≠ [] := List.ne_nil_of_length_pos (by omega)
    obtain ⟨hsplit, hlast⟩ := split_intercalate hne hpieces
    rw [hsplit]
    exact ⟨hlen, hlast, hcomp, hfirst⟩
  · rintro ⟨hlen, hlast, hcomp, hfirst⟩
    exact ⟨split '.' address, hlen, (intercalate_split hlast).symm, hcomp, hfirst⟩

theorem MulticastQuad.colon_notMem {address : List Char} (h : MulticastQuad address) : ':' ∉ address := by
  obtain ⟨pieces, -, rfl, hcomp, -⟩ := h
  intro hmem
  rcases mem_intercalate hmem with h | ⟨piece, hpiece, hmem⟩
  · cases h
  · obtain ⟨n, hn⟩ := hcomp piece hpiece
    exact hn.ne_nil_and_notMem.2.2 hmem

end component

/-! ## The answer -/

/-- `stoi` gets a number out of the piece. -/
def Readable (piece : List Char) : Prop :=
  ∃ x rest, Begins piece x rest ∧ -2 ^ 31 ≤ x.value 10 ∧ x.value 10 < 2 ^ 31

theorem readable_iff {piece : List Char} : Readable piece ↔ ∃ n, stoi piece = some n := by
  constructor
  · rintro ⟨x, rest, hbegins, hrange⟩
    exact ⟨x.value 10, stoi_eq_some_iff.2 ⟨x, rest, hbegins, rfl, hrange⟩⟩
  · rintro ⟨n, hn⟩
    obtain ⟨x, rest, hbegins, rfl, hrange⟩ := stoi_eq_some_iff.1 hn
    exact ⟨x, rest, hbegins, hrange⟩

/-- Four pieces, and the number at the front of the first one is in the range of multicast addresses. -/
def Looks (address : List Char) : Prop :=
  (split '.' address).length = 4 ∧ ∃ n, stoi ((split '.' address).getD 0 []) = some n ∧ 224 ≤ n ∧ n ≤ 239

theorem isMulticastAddress_eq {address : List Char} (hcolon : ':' ∉ address) :
    isMulticastAddress address = ((split '.' address).mapM stoi).map isMulticast := by
  rw [isMulticastAddress, if_neg hcolon, IStringStream.ofText, readBytes_eq]

theorem isMulticast_iff {address : List Char} {bytes : List Int} (h : (split '.' address).map stoi = bytes.map some) :
    isMulticast bytes = true ↔ Looks address := by
  have hlen : (split '.' address).length = bytes.length := by simpa using congrArg List.length h
  unfold isMulticast Looks
  rw [hlen]
  split
  · rename_i hne
    exact iff_of_false Bool.false_ne_true fun hlooks => hne hlooks.1
  · rename_i hfour
    -- there is a first piece, and the first number is the one it was read as
    cases hpieces : split '.' address with
    | nil => simp [hpieces] at hlen; omega
    | cons piece pieces =>
      cases bytes with
      | nil => simp at hfour
      | cons byte bytes =>
        rw [hpieces, List.map_cons, List.map_cons, List.cons.injEq] at h
        simp only [List.getD_cons_zero, h.1, Bool.and_eq_true, decide_eq_true_eq]
        constructor
        · exact fun hrange => ⟨not_not.1 hfour, byte, rfl, hrange⟩
        · rintro ⟨-, n, hn, hrange⟩
          cases hn
          exact hrange

/-- Without a colon the answer is about the pieces. -/
theorem isMulticastAddress_eq_some_iff {address : List Char} (hcolon : ':' ∉ address) {answer : Bool} :
    isMulticastAddress address = some answer ↔
      (∀ piece ∈ split '.' address, Readable piece) ∧ (answer = true ↔ Looks address) := by
  rw [isMulticastAddress_eq hcolon]
  simp only [Option.map_eq_some_iff, mapM_eq_some_iff]
  constructor
  · rintro ⟨bytes, hbytes, rfl⟩
    refine ⟨fun piece hpiece => readable_iff.2 ?_, isMulticast_iff hbytes⟩
    have hmem : stoi piece ∈ bytes.map some := hbytes ▸ List.mem_map_of_mem hpiece
    obtain ⟨n, -, hn⟩ := List.mem_map.1 hmem
    exact ⟨n, hn.symm⟩
  · rintro ⟨hread, hanswer⟩
    have hbytes : (split '.' address).map stoi =
        ((split '.' address).map fun piece => (stoi piece).getD 0).map some := by
      rw [List.map_map]
      refine List.map_congr_left fun piece hpiece => ?_
      obtain ⟨n, hn⟩ := readable_iff.1 (hread piece hpiece)
      simp [hn]
    exact ⟨_, hbytes, Bool.eq_iff_iff.2 ((isMulticast_iff hbytes).trans hanswer.symm)⟩

/-- The pieces can be read, and if they look like a multicast address they are one: digits only, up to 255, and no dot
at the end. -/
structure Plain (address : List Char) : Prop where
  readable : ∀ piece ∈ split '.' address, Readable piece
  strict : (split '.' address).length = 4 → ∀ x rest, Begins ((split '.' address).getD 0 []) x rest →
    224 ≤ x.value 10 → x.value 10 ≤ 239 →
      address.getLast? ≠ some '.' ∧ ∀ piece ∈ split '.' address, ∃ n, Component piece n

theorem Plain.looks_iff {address : List Char} (h : Plain address) : Looks address ↔ MulticastQuad address := by
  rw [multicastQuad_iff]
  constructor
  · rintro ⟨hlen, n, hn, hlo, hhi⟩
    obtain ⟨x, rest, hbegins, rfl, -⟩ := stoi_eq_some_iff.1 hn
    obtain ⟨hlast, hcomp⟩ := h.strict hlen x rest hbegins hlo hhi
    have hfirst : (split '.' address).getD 0 [] ∈ split '.' address := by
      cases hpieces : split '.' address with
      | nil => rw [hpieces] at hlen; cases hlen
      | cons piece pieces => exact List.mem_cons_self
    obtain ⟨m, hm⟩ := hcomp _ hfirst
    have hx : (m : Int) = x.value 10 := Option.some.inj (hm.stoi_eq.symm.trans hn)
    exact ⟨hlen, hlast, hcomp, m, hm, by omega, by omega⟩
  · rintro ⟨hlen, -, -, n, hn, hlo, hhi⟩
    exact ⟨hlen, n, hn.stoi_eq, by omega, by omega⟩

/-- `isMulticastAddress` returns, and recognises the dotted quads of the multicast range and nothing else, exactly for
the names that have a colon or are `Plain`. -/
theorem recognition_exact_iff (address : List Char) :
    (∃ answer, isMulticastAddress address = some answer ∧ (answer = true ↔ MulticastQuad address)) ↔
      ':' ∈ address ∨ Plain address := by
  by_cases hcolon : ':' ∈ address
  · refine iff_of_true ⟨false, if_pos hcolon, ?_⟩ (.inl hcolon)
    exact iff_of_false Bool.false_ne_true fun hquad => hquad.colon_notMem hcolon
  · rw [or_iff_right hcolon]
    constructor
    · rintro ⟨answer, hanswer, hexact⟩
      obtain ⟨hread, hlooks⟩ := (isMulticastAddress_eq_some_iff hcolon).1 hanswer
      refine ⟨hread, fun hlen x rest hbegins hlo hhi => ?_⟩
      have hn : stoi ((split '.' address).getD 0 []) = some (x.value 10) :=
        stoi_eq_some_iff.2 ⟨x, rest, hbegins, rfl, by omega, by omega⟩
      have hquad := hexact.1 (hlooks.2 ⟨hlen, x.value 10, hn, hlo, hhi⟩)
      obtain ⟨-, hlast, hcomp, -⟩ := multicastQuad_iff.1 hquad
      exact ⟨hlast, hcomp⟩
    · intro hplain
      by_cases hquad : MulticastQuad address
      · refine ⟨true, (isMulticastAddress_eq_some_iff hcolon).2 ⟨hplain.readable, ?_⟩, iff_of_true rfl hquad⟩
        exact iff_of_true rfl (hplain.looks_iff.2 hquad)
      · refine ⟨false, (isMulticastAddress_eq_some_iff hcolon).2 ⟨hplain.readable, ?_⟩, ?_⟩
        · exact iff_of_false Bool.false_ne_true fun hlooks => hquad (hplain.looks_iff.1 hlooks)
        · exact iff_of_false Bool.false_ne_true hquad

/-- None of the names that the session manager hands out can be asked about. -/
theorem isMulticastAddress_serverName (uid : Nat) : isMulticastAddress (serverName uid) = none := by
  have hdigits : ∀ c, digitOf 10 c = none → c ∉ decimal uid := fun c hc =>
    notMem_digitChar (by norm_num) (fun d hd => decimalDigits_lt hd) hc
  have hname : ∀ c, c ∉ "server/".toList → digitOf 10 c = none → c ∉ serverName uid := by
    intro c hc hdigit hmem
    rcases List.mem_append.1 hmem with h | h
    · exact hc h
    · exact hdigits c hdigit h
  have hne : serverName uid ≠ [] := List.append_ne_nil_of_left_ne_nil (by decide) _
  have hstoi : stoi (serverName uid) = none := rfl
  rw [isMulticastAddress_eq (hname ':' (by decide) rfl), split_of_notMem hne (hname '.' (by decide) rfl),
    List.mapM_cons, hstoi]
  rfl

/-- The name of the first server: `stoi` finds no number in it. -/
theorem server_name_throws :
    serverName 1 = "server/1".toList ∧ isMulticastAddress (serverName 1) = none ∧ ¬ MulticastQuad (serverName 1) := by
  refine ⟨rfl, isMulticastAddress_serverName 1, fun hquad => ?_⟩
  have hlen := (multicastQuad_iff.1 hquad).1
  rw [show serverName 1 = "server/1".toList from rfl, split_of_notMem (by decide) (by decide)] at hlen
  cases hlen

-- numbers above 255, signs and blanks, rests behind the digits and a dot at the end are taken, and long numbers throw
example : isMulticastAddress "224.0.0.999".toList = some true := by
  rw [isMulticastAddress_eq (by decide)]
  decide

example : isMulticastAddress " 224.+0.-1.1x.".toList = some true := by
  rw [isMulticastAddress_eq (by decide)]
  decide

example : isMulticastAddress "224.0.0.4294967296".toList = none := by
  rw [isMulticastAddress_eq (by decide)]
  decide

end RapidTransfer.SessionManager
