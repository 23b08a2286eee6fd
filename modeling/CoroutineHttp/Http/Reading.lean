/-
  CoroutineHttp.Http.Reading

  A client that takes responses off a stream one after another, by their lengths: it
  finds the end of a delimited response whatever follows it (`Whole.of_delimited`), and
  so takes a sequence of them apart again (`readMessages_flatten`).
-/

import CoroutineHttp.Http.Delimiting

namespace CoroutineHttp.Http

open CoroutineHttp.Library

/-! ## The reader -/

/-- One response off the stream: the header block, and as many bytes as its one length
    says; none if the status has no body. -/
def readMessage (s : Bytes) : Option (ResponseText × Bytes) := do
  let (lines, rest) ← takeLines s.length s
  let status ← lines.head?.bind readStatus
  let fields ← lines.tail.mapM readField
  if NoBody status then some (⟨status, fields, []⟩, rest)
  else
    match lengthFields fields with
    | [f] =>
        let n ← readNat (trimValue f.2)
        if n ≤ rest.length then some (⟨status, fields, rest.take n⟩, rest.drop n) else none
    | _ => none

/-- So many responses off the stream. -/
def readMessages : Nat → Bytes → Option (List ResponseText × Bytes)
  | 0, s => some ([], s)
  | n + 1, s => do
      let (text, s) ← readMessage s
      let (texts, s) ← readMessages n s
      some (text :: texts, s)

/-- Wherever `m` stands on a stream, a client reads this status and this body, and takes
    off no more than `m`. -/
def Whole (m : Bytes) (status : Int) (body : Bytes) : Prop :=
  ∀ rest, ∃ fields, readMessage (m ++ rest) = some (⟨status, fields, body⟩, rest)

/-! ## Whatever follows -/

/-- What is taken of a stream does not depend on what follows it. -/
theorem takeLines_append {fuel fuel' : Nat} {s body : Bytes} {lines : List Bytes}
    (h : takeLines fuel s = some (lines, body)) (hle : fuel ≤ fuel') (rest : Bytes) :
    takeLines fuel' (s ++ rest) = some (lines, body ++ rest) := by
  -- on the lines
  induction fuel generalizing fuel' s lines with
  | zero => cases h
  | succ fuel ih =>
      obtain ⟨fuel', rfl⟩ := Nat.exists_eq_add_of_le' hle
      rw [takeLines, Option.bind_eq_bind, Option.bind_eq_some_iff] at h
      obtain ⟨n, hfind, h⟩ := h
      have hlen : n + 2 ≤ s.length := by
        have hspec := congrArg List.length (find_spec hfind)
        rw [crlf_eq, List.length_append, List.length_append, List.length_take,
          List.length_drop] at hspec
        simp only [List.length_cons, List.length_nil] at hspec
        omega
      have hdrop : (s ++ rest).drop (n + 2) = s.drop (n + 2) ++ rest :=
        List.drop_append_of_le_length hlen
      have htake : (s ++ rest).take n = s.take n :=
        List.take_append_of_le_length (by omega)
      rw [show fuel' + (fuel + 1) = (fuel' + fuel) + 1 from rfl, takeLines, find_append hfind rest,
        Option.bind_eq_bind, Option.bind_some, hdrop, htake]
      dsimp only at h ⊢
      split
      next hzero =>
        rw [if_pos hzero] at h
        cases h
        rfl
      next hpos =>
        rw [if_neg hpos, Option.bind_eq_bind, Option.bind_eq_some_iff] at h
        obtain ⟨⟨lines', body'⟩, htaken, h⟩ := h
        cases h
        rw [ih htaken (Nat.le_add_left ..)]
        rfl

/-- **One response.** A client finds the end of a delimited response, whatever follows. -/
theorem Whole.of_delimited {m : Bytes} {text : ResponseText} (hread : readResponse m = some text)
    (hend : Delimited m) (hbody : ¬ NoBody text.status) : Whole m text.status text.body := by
  obtain ⟨text', hread', hlength⟩ := hend
  obtain rfl : text' = text := Option.some.inj (hread'.symm.trans hread)
  obtain ⟨f, hfields, hdecimal⟩ := hlength.resolve_right fun h => hbody h.1
  intro rest
  simp only [readResponse, Option.bind_eq_bind, Option.bind_eq_some_iff, Option.some.injEq]
    at hread
  obtain ⟨⟨lines, body⟩, hlines, status, ⟨line, hhead, hstatus⟩, fields, hmap, rfl⟩ := hread
  dsimp only at hhead hmap hbody hfields hdecimal ⊢
  have hlen : m.length ≤ (m ++ rest).length := by
    rw [List.length_append]
    omega
  have hmore := takeLines_append hlines hlen rest
  have hnat : readNat (trimValue f.2) = some body.length := by
    rw [readNat, if_pos ⟨hdecimal.nonempty, by simpa using hdecimal.digits⟩, hdecimal.value]
  refine ⟨fields, ?_⟩
  simp only [readMessage, Option.bind_eq_bind, hmore, Option.bind_some, hhead, hstatus, hmap,
    if_neg hbody, hfields, hnat]
  simp

/-! ## Responses of the server -/

open WireRequest (headerLine)

/-- A message composed of lines and a body is whole if its length is among the headers. -/
theorem Whole.of_lines {code : Int} {headers : List (Bytes × Bytes)} {f : Bytes × Bytes}
    {body : Bytes} (hheaders : ∀ e ∈ headers, OneLine e.1 ∧ OneLine e.2)
    (hlength : lengthFields (headers.map readEntry) = [f])
    (hdecimal : IsDecimal (trimValue f.2) body.length) (hbody : ¬ NoBody code) :
    Whole ((statusLine code :: headers.map headerLine).flatMap (· ++ crlf) ++ (crlf ++ body))
      code body := by
  have hread := readResponse_lines code hheaders body
  exact Whole.of_delimited hread ⟨_, hread, .inl ⟨f, hlength, hdecimal⟩⟩ hbody

namespace HttpResponse

/-- What `text`, `json` and `html` write, on an object on which no length was set. -/
theorem whole_setBody {res : HttpResponse} (h : res.EntriesOneLine)
    (hplain : ∀ key, (res.headers[key]?).isSome → givesLength key = false) {c : ResCall}
    {contentType body : Bytes} (hc : c.content = some (contentType, body))
    (hstatus : ¬ NoBody res.statusCode) :
    Whole (res.setBody contentType body).message res.statusCode body := by
  have hflush := toFlush_of_content hc res
  have hends : Delimited (res.setBody contentType body).message := by
    rw [delimited_message_iff (h.toFlush hflush), storedBody_setBody, givesLength_setBody]
    left
    intro key hkey hlength
    exact absurd ((hplain key hkey).symm.trans hlength) Bool.false_ne_true
  have hwhole := Whole.of_delimited (readResponse_message (h.toFlush hflush)) hends hstatus
  rwa [storedBody_setBody] at hwhole

end HttpResponse

/-! ## Sequences -/

/-- **A sequence of responses** is taken apart again. -/
theorem readMessages_flatten {ms : List Bytes} {pages : List (Int × Bytes)}
    (h : List.Forall₂ (fun m (page : Int × Bytes) => Whole m page.1 page.2) ms pages)
    (rest : Bytes) :
    ∃ texts, readMessages ms.length (ms.flatten ++ rest) = some (texts, rest) ∧
      texts.map (fun text => (text.status, text.body)) = pages := by
  induction h with
  | nil => exact ⟨[], rfl, rfl⟩
  | @cons m page ms pages hm _ ih =>
      obtain ⟨texts, hread, hpages⟩ := ih
      obtain ⟨fields, hone⟩ := hm (ms.flatten ++ rest)
      refine ⟨⟨page.1, fields, page.2⟩ :: texts, ?_, by rw [List.map_cons, hpages]⟩
      rw [List.length_cons, readMessages, List.flatten_cons, List.append_assoc, hone]
      simp [hread]

end CoroutineHttp.Http
