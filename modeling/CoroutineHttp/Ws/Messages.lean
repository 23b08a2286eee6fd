/-
  CoroutineHttp.Ws.Messages

  The text frames of a chat session as JSON texts.

  A message is glued together from the nicks and the payload as they are, so its text is
  the raw text of the fields it means (`text_utf8Of`), and it is read back as these
  fields exactly if no string in it needs escaping.
-/

import CoroutineHttp.Library.Json
import CoroutineHttp.Ws.Outgoing

namespace CoroutineHttp.Ws

open CoroutineHttp.Library CoroutineHttp.Core CoroutineHttp.Net

/-! ## Reading a frame -/

/-- `JSON.parse(e.data)`: UTF-8, then JSON. -/
def decode (b : Bytes) : Option Json :=
  b.toByteArray.utf8Decode?.bind fun cs => Json.parse (cs.toList.flatMap charUnits)

/-- The bytes are the UTF-8 of the string that has these units. -/
def Utf8Of (b : Bytes) (u : Units) : Prop := ∃ s : String, b = bytes s ∧ u = units s

theorem Utf8Of.of (s : String) : Utf8Of (bytes s) (units s) := ⟨s, rfl, rfl⟩

theorem units_append (s t : String) : units (s ++ t) = units s ++ units t := by
  simp [units]

theorem Utf8Of.append {b b' : Bytes} {u u' : Units} (h : Utf8Of b u) (h' : Utf8Of b' u') :
    Utf8Of (b ++ b') (u ++ u') := by
  obtain ⟨s, rfl, rfl⟩ := h
  obtain ⟨t, rfl, rfl⟩ := h'
  exact ⟨s ++ t, by simp [bytes], (units_append s t).symm⟩

theorem Utf8Of.decode {b : Bytes} {u : Units} (h : Utf8Of b u) : decode b = Json.parse u := by
  obtain ⟨s, rfl, rfl⟩ := h
  have hutf8 : (bytes s).toByteArray = s.toList.utf8Encode := rfl
  rw [Ws.decode, hutf8, List.utf8Decode?_utf8Encode]
  rfl

/-! ## The messages -/

/-- The text frames of a session. -/
inductive Message where
  | joined (nick : String) (online : Nat) (users : List String)
  | left (nick : String) (online : Nat) (users : List String)
  | said (nick payload : String)
  /-- The reply to a PING. -/
  | pong

/-- A room with these members. -/
def roster (users : List String) : ChatRoom := ⟨users.map fun u => ⟨0, bytes u⟩, none⟩

namespace Message

/-- The payload of the frame. -/
def text : Message → Bytes
  | joined nick online users => joinMessage (bytes nick) online (roster users).nicksJson
  | left nick online users => leaveMessage (bytes nick) online (roster users).nicksJson
  | said nick payload => chatMessage (bytes nick) (bytes payload)
  | pong => []

/-- The list `users`. -/
def nickList (users : List String) : Json := .arr (users.map fun u => .str (units u))

/-- The fields of an announcement. -/
def systemFields (msg : String) (online : Nat) (users : List String) : List (Units × Json) :=
  [(units "type", .str (units "system")), (units "msg", .str (units msg)),
    (units "online", .num (units (Nat.repr online))), (units "users", nickList users)]

/-- The fields a message is meant to have. -/
def fields : Message → List (Units × Json)
  | joined nick online users => systemFields (nick ++ " 加入了聊天室") online users
  | left nick online users => systemFields (nick ++ " 离开了聊天室") online users
  | said nick payload =>
      [(units "type", .str (units "message")), (units "nick", .str (units nick)),
        (units "msg", .str (units payload))]
  | pong => []

/-- The message is read back as the fields it is meant to have. -/
def Faithful (m : Message) : Prop := ∃ v, decode m.text = some v ∧ v.Means m.fields

/-! ## The text of a message -/

theorem utf8Of_toDec (n : Nat) : Utf8Of (toDec n) (units (Nat.repr n)) := by
  refine ⟨Nat.repr n, ?_, rfl⟩
  -- a digit is its own UTF-8 encoding
  have hdigits : ∀ cs : List Char, (∀ c ∈ cs, c.isDigit = true) →
      cs.map Char.toUInt8 = cs.flatMap String.utf8EncodeChar := by
    intro cs hcs
    induction cs with
    | nil => rfl
    | cons c cs ih =>
        obtain ⟨hc, hrest⟩ := List.forall_mem_cons.mp hcs
        have hsize : c.utf8Size = 1 := by
          simp only [Char.isDigit, Bool.and_eq_true, decide_eq_true_eq] at hc
          rw [Char.utf8Size_eq_one_iff]
          exact UInt32.le_trans hc.2 (by decide)
        rw [List.map_cons, List.flatMap_cons, ih hrest, String.utf8EncodeChar_eq_singleton hsize]
        rfl
  rw [toDec, bytes, Nat.toList_repr]
  exact hdigits _ fun c hc => Nat.isDigit_of_mem_toDigits (by decide) (by decide) hc

theorem utf8Of_nicksJson (users : List String) :
    Utf8Of (roster users).nicksJson (nickList users).raw := by
  -- the names in quotes, with commas between
  have hitems : Utf8Of
      ([44].intercalate ((roster users).clients.map fun c => bytes "\"" ++ c.nick ++ bytes "\""))
      (Json.rawItems (users.map fun u => .str (units u))) := by
    induction users with
    | nil => exact .of ""
    | cons u users ih =>
        have hnick : Utf8Of (bytes "\"" ++ bytes u ++ bytes "\"") (Json.raw (.str (units u))) :=
          ((Utf8Of.of "\"").append (.of u)).append (.of "\"")
        cases users with
        | nil => simpa [roster, Json.rawItems, List.intercalate] using hnick
        | cons w users =>
            have hrest := hnick.append ((Utf8Of.of ",").append ih)
            have hcomma : bytes "," = [44] ∧ units "," = [44] := by decide
            simpa [roster, Json.rawItems, List.intercalate, hcomma] using hrest
  exact ((Utf8Of.of "[").append hitems).append (.of "]")

theorem utf8Of_system (nick what : String) (online : Nat) (users : List String) :
    Utf8Of (systemMessage (bytes nick) (bytes what) online (roster users).nicksJson)
      (Json.obj (systemFields (nick ++ what) online users)).raw := by
  have hpieces := (((((((Utf8Of.of "\x7b\"type\":\"system\",\"msg\":\"").append (.of nick)).append
    (.of what)).append (.of "\",\"online\":")).append (utf8Of_toDec online)).append
    (.of ",\"users\":")).append (utf8Of_nicksJson users)).append (.of "\x7d")
  have hopen : units "\x7b\"type\":\"system\",\"msg\":\"" =
      123 :: 34 :: (units "type" ++ 34 :: 58 :: 34 :: (units "system" ++
        34 :: 44 :: 34 :: (units "msg" ++ [34, 58, 34]))) := by decide
  have honline : units "\",\"online\":" = 34 :: 44 :: 34 :: (units "online" ++ [34, 58]) := by
    decide
  have husers : units ",\"users\":" = 44 :: 34 :: (units "users" ++ [34, 58]) := by decide
  have hclose : units "\x7d" = [125] := by decide
  rw [hopen, honline, husers, hclose] at hpieces
  simpa [systemMessage, systemFields, Json.raw, Json.rawFields, units_append] using hpieces

/-- **The text** of a message is the raw text of its fields. -/
theorem text_utf8Of {m : Message} (hm : m ≠ pong) : Utf8Of m.text (Json.obj m.fields).raw := by
  cases m with
  | joined nick online users => exact utf8Of_system nick " 加入了聊天室" online users
  | left nick online users => exact utf8Of_system nick " 离开了聊天室" online users
  | said nick payload =>
      have hpieces := ((((Utf8Of.of "\x7b\"type\":\"message\",\"nick\":\"").append
        (.of nick)).append (.of "\",\"msg\":\"")).append (.of payload)).append (.of "\"\x7d")
      have hopen : units "\x7b\"type\":\"message\",\"nick\":\"" =
          123 :: 34 :: (units "type" ++ 34 :: 58 :: 34 :: (units "message" ++
            34 :: 44 :: 34 :: (units "nick" ++ [34, 58, 34]))) := by decide
      have hmsg : units "\",\"msg\":\"" = 34 :: 44 :: 34 :: (units "msg" ++ [34, 58, 34]) := by
        decide
      have hclose : units "\"\x7d" = [34, 125] := by decide
      rw [hopen, hmsg, hclose] at hpieces
      simpa [text, chatMessage, fields, Json.raw, Json.rawFields] using hpieces
  | pong => exact absurd rfl hm

/-! ## Strings that need no escaping -/

/-- No quotation mark, no backslash and no control character. -/
def plainText (s : String) : Bool :=
  s.toList.all fun c => decide (32 ≤ c.toNat) && c != '"' && c != '\\'

theorem isPlain_ofNat {n : Nat} (h : n < 0x10000) :
    Json.isPlain (UInt16.ofNat n) = (decide (32 ≤ n) && n != 34 && n != 92) := by
  have hnat : (UInt16.ofNat n).toNat = n := UInt16.toNat_ofNat_of_lt' h
  have heq (m : Nat) (hm : m < 0x10000) : UInt16.ofNat n = UInt16.ofNat m ↔ n = m := by
    rw [← UInt16.toNat_inj, hnat, UInt16.toNat_ofNat_of_lt' hm]
  rw [Bool.eq_iff_iff, Json.isPlain]
  simp only [Bool.and_eq_true, decide_eq_true_eq, bne_iff_ne, ne_eq, UInt16.le_iff_toNat_le, hnat]
  have hquote : ¬ UInt16.ofNat n = 34 ↔ ¬ n = 34 := not_congr (heq 34 (by omega))
  have hslash : ¬ UInt16.ofNat n = 92 ↔ ¬ n = 92 := not_congr (heq 92 (by omega))
  exact and_congr (and_congr Iff.rfl hquote) hslash

theorem plain_charUnits (c : Char) :
    (charUnits c).all Json.isPlain = (decide (32 ≤ c.toNat) && c != '"' && c != '\\') := by
  have hchar (d : Char) : (c != d) = (c.toNat != d.toNat) := by
    rw [Bool.eq_iff_iff, bne_iff_ne, bne_iff_ne, ne_eq, ne_eq, Char.toNat_inj]
  have hvalid : c.toNat < 0xD800 ∨ (0xDFFF < c.toNat ∧ c.toNat < 0x110000) := c.valid
  rw [hchar, hchar, charUnits]
  split
  next hsmall => simp [isPlain_ofNat hsmall]
  next hlarge =>
    -- both halves of a surrogate pair are plain
    rw [List.all_cons, List.all_cons, List.all_nil, isPlain_ofNat (by omega),
      isPlain_ofNat (by omega), Bool.eq_iff_iff]
    have hquote : '"'.toNat = 34 ∧ '\\'.toNat = 92 := ⟨rfl, rfl⟩
    simp only [Bool.and_eq_true, decide_eq_true_eq, bne_iff_ne, ne_eq, hquote]
    exact iff_of_true ⟨by omega, by omega, trivial⟩ (by omega)

theorem plainString_units (s : String) : Json.plainString (units s) = plainText s := by
  rw [Json.plainString, units, List.all_flatMap, plainText]
  congr 1
  funext c
  exact plain_charUnits c

/-- The nicks and the payload need no escaping, and the frame is no reply to a PING. -/
def clean : Message → Bool
  | joined nick _ users | left nick _ users => plainText nick && users.all plainText
  | said nick payload => plainText nick && plainText payload
  | pong => false

theorem toDigits_head {n : Nat} (hn : 0 < n) : (Nat.toDigits 10 n).head? ≠ some '0' := by
  -- on the number; its first digit is that of `n / 10`
  induction n using Nat.strong_induction_on with
  | _ n ih =>
      rcases Nat.lt_or_ge n 10 with hlt | hge
      · have hall : ∀ m < 10, 0 < m → [Nat.digitChar m].head? ≠ some '0' := by decide
        rw [Nat.toDigits_of_lt_base hlt]
        exact hall n hlt hn
      · rw [Nat.toDigits_of_base_le (by decide) hge,
          List.head?_append_of_ne_nil _ Nat.toDigits_ne_nil]
        exact ih (n / 10) (by omega) (by omega)

theorem charUnits_digit {c : Char} (hc : c.isDigit = true) :
    charUnits c = [UInt16.ofNat c.toNat] ∧ Json.isDigit (UInt16.ofNat c.toNat) = true ∧
      (UInt16.ofNat c.toNat).toNat = c.toNat := by
  simp only [Char.isDigit, Bool.and_eq_true, decide_eq_true_eq] at hc
  have h1 : 48 ≤ c.toNat := hc.1
  have h2 : c.toNat ≤ 57 := hc.2
  have hnat : (UInt16.ofNat c.toNat).toNat = c.toNat :=
    UInt16.toNat_ofNat_of_lt' (Nat.lt_of_le_of_lt h2 (by decide))
  refine ⟨?_, ?_, hnat⟩
  · rw [charUnits, if_pos (by omega)]
  · simp only [Json.isDigit, Bool.and_eq_true, decide_eq_true_eq, UInt16.le_iff_toNat_le, hnat]
    exact ⟨h1, h2⟩

theorem isNumeral_repr (n : Nat) : Json.isNumeral (units (Nat.repr n)) = true := by
  have hall : ∀ c ∈ Nat.toDigits 10 n, c.isDigit = true :=
    fun c hc => Nat.isDigit_of_mem_toDigits (by decide) (by decide) hc
  rw [units, Nat.toList_repr]
  cases hds : Nat.toDigits 10 n with
  | nil => exact absurd hds Nat.toDigits_ne_nil
  | cons d ds =>
      rw [hds] at hall
      have hmap : (d :: ds).flatMap charUnits = (d :: ds).map fun c => UInt16.ofNat c.toNat := by
        rw [List.map_eq_flatMap]
        exact List.flatMap_congr fun c hc => (charUnits_digit (hall c hc)).1
      have hdigits : ((d :: ds).map fun c => UInt16.ofNat c.toNat).all Json.isDigit = true := by
        rw [List.all_map, List.all_eq_true]
        exact fun c hc => (charUnits_digit (hall c hc)).2.1
      rw [hmap, Json.isNumeral, hdigits]
      rcases Nat.eq_zero_or_pos n with rfl | hn
      · cases hds
        rfl
      · -- the first digit is not zero
        have hhead := toDigits_head hn
        rw [hds] at hhead
        have hd : UInt16.ofNat d.toNat ≠ 48 := by
          intro hzero
          have h48 : d.toNat = 48 := by
            rw [← (charUnits_digit (hall d List.mem_cons_self)).2.2, hzero]
            rfl
          exact hhead (congrArg some (Char.toNat_inj.mp h48))
        simp [hd]

theorem all_nickList {num : Units → Bool} (users : List String) :
    (nickList users).all Json.plainString num = users.all plainText := by
  rw [Bool.eq_iff_iff, nickList, Json.all, Json.allItems_iff, List.all_eq_true]
  simp [Json.all, plainString_units]

theorem plainText_append (s t : String) : plainText (s ++ t) = (plainText s && plainText t) := by
  rw [plainText, String.toList_append, List.all_append]
  rfl

theorem all_systemFields {num : Units → Bool} {nick what : String} {online : Nat}
    {users : List String} (hnum : num (units (Nat.repr online)) = true)
    (hwhat : plainText what = true) :
    (Json.obj (systemFields (nick ++ what) online users)).all Json.plainString num =
      (plainText nick && users.all plainText) := by
  have hmsg : Json.plainString (units (nick ++ what)) = plainText nick := by
    rw [plainString_units, plainText_append, hwhat, Bool.and_true]
  have hnames : plainText "type" = true ∧ plainText "system" = true ∧ plainText "msg" = true ∧
      plainText "online" = true ∧ plainText "users" = true := by decide
  simp [systemFields, Json.all, Json.allFields, all_nickList, hnum, hmsg, plainString_units, hnames]

theorem all_saidFields {num : Units → Bool} (nick payload : String) :
    (Json.obj (said nick payload).fields).all Json.plainString num =
      (plainText nick && plainText payload) := by
  have hnames : plainText "type" = true ∧ plainText "message" = true ∧ plainText "nick" = true ∧
      plainText "msg" = true := by decide
  simp [fields, Json.all, Json.allFields, plainString_units, hnames]

theorem clean_fields {m : Message} (h : m.clean = true) : (Json.obj m.fields).clean = true := by
  cases m with
  | joined nick online users =>
      rw [Json.clean, fields, all_systemFields (isNumeral_repr online) (by decide)]
      exact h
  | left nick online users =>
      rw [Json.clean, fields, all_systemFields (isNumeral_repr online) (by decide)]
      exact h
  | said nick payload =>
      rw [Json.clean, all_saidFields]
      exact h
  | pong => cases h

theorem clean_of_plain {m : Message} (hm : m ≠ pong) (h : (Json.obj m.fields).plain = true) :
    m.clean = true := by
  cases m with
  | joined nick online users =>
      rwa [Json.plain, fields, all_systemFields rfl (by decide)] at h
  | left nick online users =>
      rwa [Json.plain, fields, all_systemFields rfl (by decide)] at h
  | said nick payload => rwa [Json.plain, all_saidFields] at h
  | pong => exact absurd rfl hm

theorem names_nodup (m : Message) : (m.fields.map Prod.fst).Nodup := by
  cases m with
  | joined nick online users | left nick online users =>
      show [units "type", units "msg", units "online", units "users"].Nodup
      decide
  | said nick payload =>
      show [units "type", units "nick", units "msg"].Nodup
      decide
  | pong => exact List.nodup_nil

/-- **Faithful messages** are those whose strings need no escaping. -/
theorem faithful_iff (m : Message) : m.Faithful ↔ m.clean = true := by
  by_cases hm : m = pong
  · subst hm
    have hempty : decode pong.text = none := (Utf8Of.of "").decode
    constructor
    · rintro ⟨v, hv, -⟩
      rw [hempty] at hv
      cases hv
    · nofun
  · have hdecode : decode m.text = Json.parse (Json.obj m.fields).raw := (text_utf8Of hm).decode
    constructor
    · rintro ⟨v, hv, hmeans⟩
      rw [hdecode] at hv
      have hne : m.fields ≠ [] := by
        cases m <;> first | exact List.cons_ne_nil _ _ | exact absurd rfl hm
      exact clean_of_plain hm (Json.plain_of_means hne m.names_nodup hv hmeans)
    · intro h
      exact ⟨_, hdecode.trans (Json.parse_raw (clean_fields h)), m.fields, rfl, fun _ => rfl⟩

/-- A payload that forges the nick of its message. -/
def forged : Message := said "a" "x\",\"nick\":\"b"

theorem not_faithful : ¬ ∀ m : Message, m.Faithful := by
  intro hdecodes
  obtain ⟨v, hv, hmeans⟩ := hdecodes forged
  have hdecode : decode forged.text = Json.parse (Json.obj forged.fields).raw :=
    (text_utf8Of (by nofun)).decode
  rw [hdecode] at hv
  have hnick : (Json.parse (Json.obj forged.fields).raw).bind (Json.stringAt (units "nick"))
      = some (units "b") := by decide +kernel
  rw [hv, Option.bind_some, hmeans.stringAt] at hnick
  revert hnick
  decide

end Message

/-! ## What the sessions send -/

/-- The messages of the session code, of nicks and payloads that are any bytes. -/
inductive Spoken : Bytes → Prop where
  | joined (nick : Bytes) (online : Nat) (room : ChatRoom) :
      Spoken (joinMessage nick online room.nicksJson)
  | left (nick : Bytes) (online : Nat) (room : ChatRoom) :
      Spoken (leaveMessage nick online room.nicksJson)
  | said (nick payload : Bytes) : Spoken (chatMessage nick payload)
  | pong : Spoken []

theorem Message.spoken (m : Message) : Spoken m.text := by
  cases m with
  | joined nick online users => exact .joined _ _ _
  | left nick online users => exact .left _ _ _
  | said nick payload => exact .said _ _
  | pong => exact .pong

/-- A message that is broadcast is one of these. -/
def SessionPc.Says : SessionPc → Prop
  | .broadcast _ msg | .each _ msg _ | .write _ _ (.each _ msg _) => Spoken msg
  | _ => True

theorem Back.says_pc {back : Back} {client : CoroPtr} {rest : Bytes}
    (h : SessionPc.Says (.write client rest back)) : back.pc.Says := by
  cases back with
  | each phase msg todo => exact h
  | loop => trivial

theorem Back.spoken {back : Back} {client : CoroPtr} {rest : Bytes}
    (h : SessionPc.Says (.write client rest back)) : Spoken back.msg := by
  cases back with
  | each phase msg todo => exact h
  | loop => exact .pong

theorem Phase.says_next (phase : Phase) : phase.next.Says := by
  cases phase <;> trivial

theorem says_afterFrame (self : CoroPtr) (nick : Bytes) (frame : Option WsFrame) :
    (afterFrame self nick frame).Says := by
  cases frame with
  | none => trivial
  | some f =>
      unfold afterFrame
      dsimp only
      split
      · trivial
      · split
        · trivial
        · split
          · exact .said nick f.payload
          · trivial

namespace Chat

/-- The invariant. -/
def Says (c : Chat) : Prop := ∀ p pc, c.pcAt p = some pc → pc.Says

section Says

variable {c c' : Chat} {self : CoroPtr} {s : Session} {b : Option (Act Task Unit)}

theorem Says.update (hI : Says c) {pc : SessionPc}
    (hpc : c'.pcAt = Function.update c.pcAt self (some pc)) (h : pc.Says) : Says c' := by
  intro p pc' hp
  rw [hpc] at hp
  by_cases hself : p = self
  · rw [hself, Function.update_self] at hp
    rw [← Option.some.inj hp]
    exact h
  · rw [Function.update_of_ne hself] at hp
    exact hI p pc' hp

theorem Says.same (hI : Says c) (hpc : c'.pcAt = c.pcAt) : Says c' := by
  intro p pc hp
  rw [hpc] at hp
  exact hI p pc hp

theorem Says.session (hI : Says c) (hs : c.sessions self = some s) : s.pc.Says :=
  hI self s.pc (pcAt_eq hs)

theorem Says.goto (hI : Says c) (hs : c.sessions self = some s) (room : ChatRoom) {pc : SessionPc}
    (h : pc.Says) : Says ((c.setRoom room).goto self pc) :=
  hI.update (modify_map (c := c.setRoom room) Session.pc _ hs) h

/-- The steps of a session: what is sent is a message of the session code. -/
theorem SessionStep.says {a : ChatAct} (hI : Says c) (hs : c.sessions self = some s)
    (h : SessionStep c self s a c' b) : Says c' := by
  have hself := hI.session hs
  cases h with
  | join hpc hfree | leave hpc hfree | log phase hpc hfree | online phase hpc hfree =>
      exact hI.goto hs _ trivial
  | users phase online hpc hfree =>
      refine hI.goto hs c.room ?_
      split
      · exact .left s.nick online c.room
      · exact .joined s.nick online c.room
  | lock phase msg hpc hfree =>
      rw [hpc] at hself
      exact hI.goto hs _ hself
  | unlock phase msg hpc => exact hI.goto hs _ phase.says_next
  | skip phase msg p todo t hpc ht hclosed | write phase msg p todo t hpc ht hopen =>
      rw [hpc] at hself
      exact hI.goto hs c.room hself
  | loop hpc =>
      refine hI.goto hs c.room ?_
      split <;> trivial
  | frame frame hpc => exact hI.goto hs c.room (says_afterFrame self s.nick frame)
  | written client rest back t hpc ht hdone =>
      rw [hpc] at hself
      exact hI.goto hs c.room (Back.says_pc hself)
  | buffered n next hpc hle | short n next hpc hlt hclosed | upgrade nick hpc
  | destroy fd hpc hfd | destroyClosed hpc hfd =>
      exact hI.update (modify_map Session.pc _ hs) trivial
  | data n next first rest hpc hlt hopen hlen | http buf ended hpc =>
      exact hI.update (modify_map Session.pc _ hs) hself
  | recvEnd n next hpc hlt hopen =>
      rw [recvShort_ended]
      exact hI.update (modify_map Session.pc _ hs) trivial
  | accepted client rest back t extra hpc ht hopen hrest =>
      have hwrites : c.pcAt self = some (.write client rest back) := hpc ▸ pcAt_eq hs
      rw [hpc] at hself
      have htook := hI.same (pcAt_took c client (rest.take (min (extra + 1) rest.length)))
      rw [← pcAt_took c client (rest.take (min (extra + 1) rest.length))] at hwrites
      exact htook.update (pcAt_goto hwrites _) (by cases back <;> exact hself)
  | sendFail client rest back t hpc ht hopen hrest =>
      have hwrites : c.pcAt self = some (.write client rest back) := hpc ▸ pcAt_eq hs
      rw [hpc] at hself
      have hended := hI.same (pcAt_ended c client)
      rw [← pcAt_ended c client] at hwrites
      exact hended.update (pcAt_goto hwrites _) (Back.says_pc hself)
  | recvWait n next hpc hlt hopen | sendWait client rest back t hpc ht hopen hrest
  | httpWait reading hpc hopen | finish hpc => exact hI

theorem says_coroutineAct {a : ChatAct} (hI : Says c) (h : c.coroutineAct self a = some (c', b)) :
    Says c' := by
  cases coroutineStep_of_act h with
  | start fd hnone htask =>
      have hpc : (c.started self fd).pcAt = Function.update c.pcAt self (some .http) := by
        funext q
        by_cases hq : q = self <;> simp [pcAt, started, hq]
      exact hI.update hpc trivial
  | acceptWait fd hnone htask => exact hI
  | accept listenFd fd hnone htask hctx hfd hfresh => exact hI
  | session s hs h => exact h.says hI hs

/-- **Step lemma.** -/
theorem Says.step {H : StdHeap timerAfter} {a : ChatAct} (hI : Says c)
    (hs : c.step H a = some c') : Says c' := by
  obtain ⟨c₁, b, hact, hsame⟩ := step_act hs
  refine Says.same ?_ (pcAt_congr hsame)
  rcases act_coroutine hact with ⟨hsame₁, -⟩ | ⟨self, -, hcoroutine⟩
  · exact hI.same (pcAt_congr hsame₁)
  · exact says_coroutineAct hI hcoroutine

end Says

/-- **Every frame** a session sends, in every run, is one of a message of the session code. -/
theorem frames_spoken (H : StdHeap timerAfter) (pipeReadFd : Fd) (pipeCap : ℕ+) {c : Chat}
    (hrun : Run (Chat.step H) anyStep (init pipeReadFd pipeCap) c) {p client : CoroPtr}
    {rest : Bytes} {back : Back} (hp : c.pcAt p = some (.write client rest back)) :
    Spoken back.msg := by
  have hI : Says c := hrun.invariant nofun fun _ _ _ hP hs _ => hP.step hs
  exact Back.spoken (hI p _ hp)

end Chat

end CoroutineHttp.Ws
