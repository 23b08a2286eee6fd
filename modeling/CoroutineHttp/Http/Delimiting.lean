/-
  CoroutineHttp.Http.Delimiting

  Where a client finds the end of a response.  `text`, `json` and `html` announce the
  length of the body they write; `send` announces nothing, so that what it writes has
  an end only if the length was set before it, or the status has no body.  Every
  message of a run of calls has an end if and only if every call was made in a state
  that suits it (`messages_delimited_iff`).
-/

import CoroutineHttp.Http.ResponseText

namespace CoroutineHttp.Http

open CoroutineHttp.Library

/-! ## What a client knows -/

/-- The statuses for which HTTP defines no body. -/
def NoBody (status : Int) : Prop := (100 ≤ status ∧ status < 200) ∨ status = 204 ∨ status = 304

instance (status : Int) : Decidable (NoBody status) := inferInstanceAs (Decidable (_ ∨ _))

/-- The fields that give the length of the body, in any case of their letters. -/
def lengthFields (fields : List (Bytes × Bytes)) : List (Bytes × Bytes) :=
  fields.filter fun f => toLower f.1 == bytes "content-length"

/-- A field value without the white space around it. -/
def trimValue (value : Bytes) : Bytes := trimWith (fun b => b == 32 || b == 9) value

/-- The message says where it ends: with the one length it gives, or with the header
    block when the status has no body. -/
def Delimited (m : Bytes) : Prop :=
  ∃ text, readResponse m = some text ∧
    ((∃ f, lengthFields text.fields = [f] ∧ IsDecimal (trimValue f.2) text.body.length) ∨
      (NoBody text.status ∧ text.body = []))

theorem trimValue_toDec (n : Nat) : trimValue (toDec n) = toDec n := by
  have hplain : ∀ b ∈ toDec n, (b == 32 || b == 9) = false := by
    intro b hb
    have hdigit := isdigit_of_mem_toDec hb
    rw [Bool.or_eq_false_iff, beq_eq_false_iff_ne, beq_eq_false_iff_ne]
    constructor
    · rintro rfl
      exact absurd hdigit (by decide)
    · rintro rfl
      exact absurd hdigit (by decide)
  exact trimWith_eq_self (fun b hb => hplain b (List.mem_of_mem_head? hb))
    fun b hb => hplain b (List.mem_of_getLast? hb)

theorem isDecimal_toDec (n : Nat) : IsDecimal (toDec n) n :=
  ⟨toDec_ne_nil n, fun _ hb => isdigit_of_mem_toDec hb, decimalValue_toDec n⟩

namespace HttpResponse

/-- The messages a run of calls writes. -/
def messages (res : HttpResponse) : List ResCall → List Bytes
  | [] => []
  | c :: calls => ((res.toFlush c).map message).toList ++ (res.call c).messages calls

/-- A header set under this key is read as the length of the body. -/
def givesLength (key : Bytes) : Bool := toLower (fieldName key) == bytes "content-length"

/-- One header gives a length, and the length is `n`. -/
def GivesLength (res : HttpResponse) (n : Nat) : Prop :=
  ∃ key value, res.headers[key]? = some value ∧ toLower key = bytes "content-length" ∧
    IsDecimal (trimValue value) n ∧
    ∀ key', (res.headers[key']?).isSome → givesLength key' = true → key' = key

/-- The headers suit the call. -/
def Ready (res : HttpResponse) : ResCall → Prop
  | .status _ | .header _ _ => True
  -- the length is set under one spelling only
  | .text body | .json body | .html body =>
      (∀ key, (res.headers[key]?).isSome → givesLength key = true →
          key = bytes "Content-Length") ∨
        (NoBody res.statusCode ∧ body = [])
  -- nothing is set
  | .send =>
      res.GivesLength res.storedBody.length ∨ (NoBody res.statusCode ∧ res.storedBody = [])

/-- Every call of a run is made on an object that suits it. -/
def AllReady (res : HttpResponse) : List ResCall → Prop
  | [] => True
  | c :: calls => res.Ready c ∧ (res.call c).AllReady calls

/-- The strings a call sets contain no line break. -/
def ResCall.OneLine : ResCall → Prop
  | .header key value => Http.OneLine key ∧ Http.OneLine value
  | _ => True

/-! ## One message -/

/-- A list without repetitions has one element of a kind. -/
theorem filter_eq_singleton_iff {α : Type} {l : List α} (h : l.Nodup) {p : α → Bool} {a : α} :
    l.filter p = [a] ↔ a ∈ l ∧ p a = true ∧ ∀ b ∈ l, p b = true → b = a := by
  rw [← List.perm_singleton, List.perm_ext_iff_of_nodup (h.filter p) (List.nodup_singleton a)]
  simp only [List.mem_filter, List.mem_singleton]
  constructor
  · intro hiff
    obtain ⟨ha, hp⟩ := (hiff a).mpr rfl
    exact ⟨ha, hp, fun b hb hpb => (hiff b).mp ⟨hb, hpb⟩⟩
  · rintro ⟨ha, hp, hall⟩ b
    refine ⟨fun hb => hall b hb.1 hb.2, ?_⟩
    rintro rfl
    exact ⟨ha, hp⟩

theorem mem_trimWith {blank : UInt8 → Bool} {s : Bytes} {b : UInt8} (hb : b ∈ s)
    (hblank : blank b = false) : b ∈ trimWith blank s := by
  have hdrop : ∀ {l : Bytes}, b ∈ l → b ∈ l.dropWhile blank := fun {l} hl => by
    rw [← List.takeWhile_append_dropWhile (p := blank) (l := l)] at hl
    rcases List.mem_append.mp hl with hl | hl
    · rw [List.mem_takeWhile_imp hl] at hblank
      cases hblank
    · exact hl
  rw [trimWith, List.rdropWhile, List.mem_reverse]
  exact hdrop (List.mem_reverse.mpr (hdrop hb))

section OneMessage

variable {res : HttpResponse} {e : Bytes × Bytes}

/-- The length is an entry of its own, not the body and not a default. -/
theorem mem_flushed_of_givesLength (h : givesLength e.1 = true) :
    e ∈ res.flushed.headers.toList ↔ res.headers[e.1]? = some e.2 := by
  have hbody : e.1 ≠ bodyKey := by
    intro he
    rw [he] at h
    exact absurd h (by decide +kernel)
  have hdefault : defaultHeader e.1 = none := by
    unfold defaultHeader
    rw [if_neg, if_neg]
    · intro he
      rw [he] at h
      exact absurd h (by decide +kernel)
    · intro he
      rw [he] at h
      exact absurd h (by decide +kernel)
  rw [mem_toList_flushed, hdefault, Option.or_none]
  exact and_iff_right hbody

/-- No `:` stands in a name that is a length in full. -/
theorem fieldName_eq_self_iff {name : Bytes} : fieldName name = name ↔ 58 ∉ name := by
  rw [fieldName, List.takeWhile_eq_self_iff]
  constructor
  · intro h hm
    exact absurd (h 58 hm) (by decide)
  · intro h b hb
    exact decide_eq_true fun he => h (he ▸ hb)

theorem toLower_eq_iff {name : Bytes} :
    toLower name = bytes "content-length" ↔ givesLength name = true ∧ 58 ∉ name := by
  have hcolon : 58 ∈ name → toLower name ≠ bytes "content-length" := fun hm he => by
    have hlow : (58 : UInt8) ∈ toLower name := List.mem_map.mpr ⟨58, hm, by decide⟩
    rw [he] at hlow
    exact absurd hlow (by decide +kernel)
  rw [givesLength, beq_iff_eq]
  constructor
  · intro h
    have hm : 58 ∉ name := fun hm => hcolon hm h
    rw [fieldName_eq_self_iff.mpr hm]
    exact ⟨h, hm⟩
  · rintro ⟨h, hm⟩
    rwa [fieldName_eq_self_iff.mpr hm] at h

/-- The value of an entry is read as a number only if its name is not cut. -/
theorem isDecimal_readEntry_iff {n : Nat} :
    IsDecimal (trimValue (readEntry e).2) n ↔ 58 ∉ e.1 ∧ IsDecimal (trimValue e.2) n := by
  by_cases hcolon : 58 ∈ e.1
  · refine iff_of_false (fun hdecimal => ?_) fun h => h.1 hcolon
    exact absurd (hdecimal.digits 58 (mem_trimWith (colon_mem_readEntry hcolon) (by decide)))
      (by decide)
  · rw [readEntry_of_not_mem hcolon]
    exact (and_iff_right hcolon).symm

/-- **One message.** It says where it ends if and only if one header gives the length
    of the body, or there is none by its status. -/
theorem delimited_message_iff (h : res.EntriesOneLine) :
    Delimited res.message ↔
      res.GivesLength res.storedBody.length ∨ (NoBody res.statusCode ∧ res.storedBody = []) := by
  have hfilter : lengthFields (res.flushed.headers.toList.map readEntry)
      = (res.flushed.headers.toList.filter (givesLength ·.1)).map readEntry := by
    rw [lengthFields, List.filter_map]
    congr 1
    refine List.filter_congr fun e _ => ?_
    rw [Function.comp_apply, readEntry_name, givesLength]
  have hone : (∃ f, lengthFields (res.flushed.headers.toList.map readEntry) = [f] ∧
        IsDecimal (trimValue f.2) res.storedBody.length) ↔
      res.GivesLength res.storedBody.length := by
    rw [hfilter]
    constructor
    · rintro ⟨f, hf, hdecimal⟩
      obtain ⟨e, he, rfl⟩ := List.map_eq_singleton_iff.mp hf
      obtain ⟨hmem, hkey, hall⟩ := (filter_eq_singleton_iff (nodup_toList _)).mp he
      obtain ⟨hcolon, hvalue⟩ := isDecimal_readEntry_iff.mp hdecimal
      refine ⟨e.1, e.2, (mem_flushed_of_givesLength hkey).mp hmem,
        toLower_eq_iff.mpr ⟨hkey, hcolon⟩, hvalue, fun key' hkey' hlength => ?_⟩
      obtain ⟨value', hvalue'⟩ := Option.isSome_iff_exists.mp hkey'
      have hmem' := (mem_flushed_of_givesLength (e := (key', value')) hlength).mpr hvalue'
      exact congrArg Prod.fst (hall _ hmem' hlength)
    · rintro ⟨key, value, hget, hname, hvalue, hall⟩
      obtain ⟨hkey, hcolon⟩ := toLower_eq_iff.mp hname
      refine ⟨readEntry (key, value), List.map_eq_singleton_iff.mpr ⟨(key, value), ?_, rfl⟩,
        isDecimal_readEntry_iff.mpr ⟨hcolon, hvalue⟩⟩
      refine (filter_eq_singleton_iff (nodup_toList _)).mpr
        ⟨(mem_flushed_of_givesLength (e := (key, value)) hkey).mpr hget, hkey,
          fun e he hlength => ?_⟩
      have hget' := (mem_flushed_of_givesLength hlength).mp he
      have hfst := hall e.1 (by simp [hget']) hlength
      rw [hfst, hget] at hget'
      exact Prod.ext hfst (Option.some.inj hget').symm
  have hread := readResponse_message h
  constructor
  · rintro ⟨text, htext, hend⟩
    obtain rfl := Option.some.inj (hread.symm.trans htext)
    exact hend.imp_left hone.mp
  · intro hend
    exact ⟨_, hread, hend.imp_left hone.mpr⟩

end OneMessage

/-! ## One call -/

section OneCall

variable {res r : HttpResponse} {c : ResCall}

theorem EntriesOneLine.init : init.EntriesOneLine := by
  intro key value _ hvalue
  simp [HttpResponse.init] at hvalue

theorem EntriesOneLine.flushed (h : res.EntriesOneLine) : res.flushed.EntriesOneLine :=
  fun key value _ hvalue =>
    h.of_mem (e := (key, value)) (Std.TreeMap.mem_toList_iff_getElem?_eq_some.mpr hvalue)

theorem EntriesOneLine.setBody (h : res.EntriesOneLine) {contentType : Bytes}
    (htype : Http.OneLine contentType) (body : Bytes) :
    (res.setBody contentType body).EntriesOneLine := by
  intro key value hkey hvalue
  rcases setBody_cases hvalue with ⟨hbody, -⟩ | ⟨hname, hval⟩ | ⟨hname, hval⟩ | hbefore
  · exact absurd hbody hkey
  · rw [hname, hval]
    exact ⟨by decide +kernel, oneLine_toDec _⟩
  · rw [hname, hval]
    exact ⟨by decide +kernel, htype⟩
  · exact h key value hkey hbefore

theorem EntriesOneLine.toFlush (h : res.EntriesOneLine) (hr : res.toFlush c = some r) :
    r.EntriesOneLine := by
  cases hc : c.content with
  | some content =>
      obtain ⟨contentType, body⟩ := content
      rw [toFlush_of_content hc] at hr
      cases hr
      exact h.setBody (oneLine_contentType hc) body
  | none =>
      cases c with
      | send =>
          cases hr
          exact h
      | status _ | header _ _ => cases hr
      | text _ | json _ | html _ => cases hc

/-- Calls with strings of one line keep the entries so. -/
theorem EntriesOneLine.call (h : res.EntriesOneLine) (hc : c.OneLine) :
    (res.call c).EntriesOneLine := by
  unfold HttpResponse.call
  cases hr : res.toFlush c with
  | some r => exact (h.toFlush hr).flushed
  | none =>
      cases c with
      | status code => exact h
      | header key value =>
          intro key' value' hkey' hvalue'
          by_cases he : key = key'
          · subst he
            simp only [HttpResponse.header, Std.TreeMap.getElem?_insert_self,
              Option.some.injEq] at hvalue'
            exact hvalue' ▸ hc
          · simp only [HttpResponse.header, getElem?_insert_of_ne he] at hvalue'
            exact h key' value' hkey' hvalue'
      | text _ | json _ | html _ | send => cases hr

/-- A body is announced unless some other header is read as its length too. -/
theorem givesLength_setBody (contentType body : Bytes) :
    (res.setBody contentType body).GivesLength body.length ↔
      ∀ key, (res.headers[key]?).isSome → givesLength key = true →
        key = bytes "Content-Length" := by
  have hbody : bytes "Content-Length" ≠ bodyKey := by decide +kernel
  have hlength : givesLength (bytes "Content-Length") = true := by decide +kernel
  have hget : (res.setBody contentType body).headers[bytes "Content-Length"]?
      = some (toDec body.length) := by
    rw [getElem?_setBody, if_neg hbody, if_pos rfl]
  constructor
  · rintro ⟨key, value, -, -, -, hall⟩ key' hkey' hlength'
    -- the header of `set_body` is the one, and nothing else may be
    have hone := hall _ (by simp [hget]) hlength
    refine (hall key' ?_ hlength').trans hone.symm
    rw [getElem?_setBody]
    split
    · rfl
    · split
      · rfl
      · split
        · rfl
        · exact hkey'
  · intro hall
    refine ⟨bytes "Content-Length", toDec body.length, hget, by decide +kernel, ?_, ?_⟩
    · rw [trimValue_toDec]
      exact isDecimal_toDec _
    · intro key' hkey' hlength'
      obtain ⟨value', hvalue'⟩ := Option.isSome_iff_exists.mp hkey'
      rcases setBody_cases hvalue' with ⟨hname, -⟩ | ⟨hname, -⟩ | ⟨hname, -⟩ | hbefore
      · rw [hname] at hlength'
        exact absurd hlength' (by decide +kernel)
      · exact hname
      · rw [hname] at hlength'
        exact absurd hlength' (by decide +kernel)
      · exact hall key' (by rw [hbefore, Option.isSome_some]) hlength'

/-- **One call.** What it writes says where it ends if and only if the object suits it. -/
theorem delimited_toFlush_iff (h : res.EntriesOneLine) (c : ResCall) :
    (∀ r, res.toFlush c = some r → Delimited r.message) ↔ res.Ready c := by
  have hcontent : ∀ {contentType body}, c.content = some (contentType, body) →
      ((∀ r, res.toFlush c = some r → Delimited r.message) ↔
        (∀ key, (res.headers[key]?).isSome → givesLength key = true →
          key = bytes "Content-Length") ∨ (NoBody res.statusCode ∧ body = [])) := by
    intro contentType body hc
    have hr := toFlush_of_content hc res
    have hiff := delimited_message_iff (h.toFlush hr)
    rw [storedBody_setBody, givesLength_setBody] at hiff
    rw [hr]
    refine Iff.trans ⟨fun hall => hall _ rfl, fun hd r hr => ?_⟩ hiff
    cases hr
    exact hd
  cases c with
  | status _ | header _ _ => exact ⟨fun _ => trivial, fun _ _ hr => by cases hr⟩
  | text body | json body | html body => exact hcontent rfl
  | send =>
      refine Iff.trans ⟨fun hall => hall _ rfl, fun hd r hr => ?_⟩ (delimited_message_iff h)
      cases hr
      exact hd

/-- `send` announces nothing by itself. -/
theorem delimited_send_iff (h : res.EntriesOneLine)
    (hplain : ∀ key, (res.headers[key]?).isSome → givesLength key = false) :
    Delimited res.message ↔ NoBody res.statusCode ∧ res.storedBody = [] := by
  have hnone : ¬ res.GivesLength res.storedBody.length := by
    rintro ⟨key, value, hget, hname, -⟩
    have hkey := (toLower_eq_iff.mp hname).1
    rw [hplain key (by simp [hget])] at hkey
    cases hkey
  rw [delimited_message_iff h]
  exact or_iff_right hnone

end OneCall

/-! ## A run of calls -/

theorem messages_cons_iff {P : Bytes → Prop} (res : HttpResponse) (c : ResCall)
    (calls : List ResCall) :
    (∀ m ∈ res.messages (c :: calls), P m) ↔
      (∀ r, res.toFlush c = some r → P r.message) ∧ ∀ m ∈ (res.call c).messages calls, P m := by
  rw [messages, List.forall_mem_append]
  refine and_congr ?_ Iff.rfl
  cases res.toFlush c <;> simp

/-- **Where responses end.** Every message of a run of calls on a new object says where
    it ends if and only if every call is made on an object that suits it. -/
theorem messages_delimited_iff {calls : List ResCall} (hcalls : ∀ c ∈ calls, c.OneLine) :
    (∀ m ∈ init.messages calls, Delimited m) ↔ init.AllReady calls := by
  have hrun : ∀ (calls : List ResCall) (res : HttpResponse), (∀ c ∈ calls, c.OneLine) →
      res.EntriesOneLine → ((∀ m ∈ res.messages calls, Delimited m) ↔ res.AllReady calls) := by
    intro calls
    induction calls with
    | nil => exact fun res _ _ => iff_of_true (by simp [messages]) trivial
    | cons c calls ih =>
        intro res hcalls h
        obtain ⟨hc, hcalls⟩ := List.forall_mem_cons.mp hcalls
        rw [messages_cons_iff, delimited_toFlush_iff h c, ih _ hcalls (h.call hc)]
        rfl
  exact hrun calls init hcalls EntriesOneLine.init

/-- A status without a body and `send`, and then a body on the same object: two messages,
    both of which say where they end. -/
theorem messages_delimited_noContent :
    let calls : List ResCall := [.status 204, .send, .status 200, .text (bytes "ok")]
    (init.messages calls).length = 2 ∧ ∀ m ∈ init.messages calls, Delimited m := by
  -- `send` has set other headers than the length
  have hother : (((init.call (.status 204)).call .send).call (.status 200)).headers.keys.all
      (fun key => !givesLength key) = true := by decide +kernel
  refine ⟨rfl, (messages_delimited_iff (by simp [ResCall.OneLine])).mpr ?_⟩
  refine ⟨trivial, .inr ⟨by decide, rfl⟩, trivial, .inl fun key hkey hlength => ?_, trivial⟩
  have hmem := Std.TreeMap.mem_keys.mpr (Std.TreeMap.mem_iff_isSome_getElem?.mpr hkey)
  simpa [hlength] using List.all_eq_true.mp hother key hmem

/-- A redirect by `send` says nothing about where it ends. -/
theorem redirect_not_delimited :
    ¬ ∀ calls : List ResCall, (∀ c ∈ calls, c.OneLine) →
      ∀ m ∈ init.messages calls, Delimited m := by
  intro hall
  let res := (init.status 302).header (bytes "Location") (bytes "/login")
  have hkeys : ∀ key, (res.headers[key]?).isSome → key = bytes "Location" := by
    intro key hkey
    by_contra hne
    rw [show res.headers = init.headers.insert (bytes "Location") (bytes "/login") from rfl,
      getElem?_insert_of_ne (Ne.symm hne)] at hkey
    simp [init] at hkey
  have honeline : Http.OneLine (bytes "Location") ∧ Http.OneLine (bytes "/login") := by
    decide +kernel
  have hres : res.EntriesOneLine :=
    (EntriesOneLine.init.call (c := .status 302) trivial).call (c := .header _ _) honeline
  have hsend : Delimited res.message :=
    hall [.status 302, .header (bytes "Location") (bytes "/login"), .send]
      (by simpa [ResCall.OneLine] using honeline) res.message
      (by simp [messages, call, toFlush, res])
  have hplain : ∀ key, (res.headers[key]?).isSome → givesLength key = false := by
    intro key hkey
    rw [hkeys key hkey]
    decide +kernel
  exact absurd ((delimited_send_iff hres hplain).mp hsend).1 (by decide)

end HttpResponse

end CoroutineHttp.Http
