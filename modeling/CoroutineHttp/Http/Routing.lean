/-
  CoroutineHttp.Http.Routing

  `Route::match` against substitution into the pattern, and `dispatch` against the rule
  that the first route which qualifies handles the request.

  `match` walks pattern and path together and writes captures as it goes, also when it
  fails in the end; `matchInto` is that walk with the map it writes to, and
  `matchSegments` is what a caller with a new map can see of it.
-/

import CoroutineHttp.Library.Segments
import CoroutineHttp.Http.Server

namespace CoroutineHttp.Http

open CoroutineHttp.Library CoroutineHttp.Net

namespace Route

/-! ## The walk over pattern and path -/

theorem split_eq (s : Bytes) : split s = segments 47 s := filter_getlines 47 s

/-- The loop of `match` with the map `params` that it writes to. -/
def matchInto (params : StrMap) : List Bytes → List Bytes → Bool × StrMap
  | [], [] => (true, params)
  | seg :: ps, r :: rs =>
      if seg = bytes "*" then
        (true, params.insert (bytes "*") (List.intercalate (bytes "/") (r :: rs)))
      else if seg.head? = some 58 then matchInto (params.insert seg.tail r) ps rs
      -- the captures so far stay in the map
      else if seg ≠ r then (false, params)
      else matchInto params ps rs
  | _, _ => (false, params)

/-- The captures of a walk that fails are not seen. -/
theorem matchSegments_eq (params : StrMap) (ps rs : List Bytes) :
    matchSegments params ps rs
      = if (matchInto params ps rs).1 then some (matchInto params ps rs).2 else none := by
  induction ps generalizing params rs with
  | nil => cases rs <;> rfl
  | cons seg ps ih =>
      cases rs with
      | nil => rfl
      | cons r rs =>
          simp only [matchSegments, matchInto]
          split
          · rfl
          · split
            · exact ih _ _
            · split
              · rfl
              · exact ih _ _

/-! ## Patterns and assignments -/

/-- The segment that takes the rest of the path. -/
def star : Bytes := bytes "*"

/-- The name of a `:name` segment. -/
def paramName (seg : Bytes) : Option Bytes := if seg.head? = some 58 then some seg.tail else none

/-- The names of the parameters. -/
def names (ps : List Bytes) : List Bytes := ps.filterMap paramName

/-- Segments as a pattern has them: the parameters have names of their own, and a `*` is
    the last segment. -/
structure IsPattern (ps : List Bytes) : Prop where
  distinct : (names ps).Nodup
  named : star ∉ names ps
  last : ∀ before after, ps = before ++ star :: after → after = []

/-- What stands for the names, `*` among them, as lists of segments. -/
abbrev Assignment := Bytes → Option (List Bytes)

/-- One segment for each parameter, at least one for `*`, and nothing else. -/
structure Assigns (ps : List Bytes) (σ : Assignment) : Prop where
  param : ∀ name ∈ names ps, ∃ s, σ name = some [s] ∧ IsSegment 47 s
  rest : star ∈ ps → ∃ ss, σ star = some ss ∧ ss ≠ [] ∧ ∀ s ∈ ss, IsSegment 47 s
  only : ∀ name, (σ name).isSome → name ∈ names ps ∨ (name = star ∧ star ∈ ps)

/-- What a segment of the pattern becomes. -/
def substituteSegment (σ : Assignment) (seg : Bytes) : List Bytes :=
  if seg = star then (σ star).getD []
  else
    match paramName seg with
    | some name => (σ name).getD []
    | none => [seg]

/-- The pattern with its names replaced. -/
def substitute (σ : Assignment) (ps : List Bytes) : List Bytes :=
  ps.flatMap (substituteSegment σ)

/-- The segments that stand for a name, as one string. -/
def joinSegments (ss : List Bytes) : Bytes := List.intercalate (bytes "/") ss

/-- The map holds the assignment and nothing else. -/
def Holds (params : StrMap) (σ : Assignment) : Prop :=
  ∀ key, params[key]? = (σ key).map joinSegments

theorem segments_joinSegments {ss : List Bytes} (h : ∀ s ∈ ss, IsSegment 47 s) :
    segments 47 (joinSegments ss) = ss := segments_intercalate h

theorem joinSegments_singleton (s : Bytes) : joinSegments [s] = s := by
  simp [joinSegments]

theorem paramName_star : paramName star = none := by decide

theorem names_cons_param {seg name : Bytes} (h : paramName seg = some name) (ps : List Bytes) :
    names (seg :: ps) = name :: names ps := by
  rw [names, List.filterMap_cons_some h, names]

theorem names_cons_literal {seg : Bytes} (h : paramName seg = none) (ps : List Bytes) :
    names (seg :: ps) = names ps := by
  rw [names, List.filterMap_cons_none h, names]

theorem IsPattern.tail {seg : Bytes} {ps : List Bytes} (h : IsPattern (seg :: ps)) :
    IsPattern ps := by
  have hsub : (names ps).Sublist (names (seg :: ps)) :=
    (List.sublist_cons_self seg ps).filterMap paramName
  refine ⟨h.distinct.sublist hsub, fun hm => h.named (hsub.subset hm), ?_⟩
  intro before after hps
  exact h.last (seg :: before) after (by rw [hps, List.cons_append])

/-- The three kinds of segments, as the loop tells them apart. -/
theorem paramName_cases (seg : Bytes) :
    seg = star ∨ (seg ≠ star ∧ seg.head? = some 58 ∧ paramName seg = some seg.tail) ∨
      (seg ≠ star ∧ seg.head? ≠ some 58 ∧ paramName seg = none) := by
  by_cases hstar : seg = star
  · exact .inl hstar
  · by_cases hcolon : seg.head? = some 58
    · exact .inr (.inl ⟨hstar, hcolon, if_pos hcolon⟩)
    · exact .inr (.inr ⟨hstar, hcolon, if_neg hcolon⟩)

section Walk

variable {params params' : StrMap} {seg r : Bytes} {ps rs : List Bytes}

theorem matchSegments_star (params : StrMap) (ps : List Bytes) (r : Bytes) (rs : List Bytes) :
    matchSegments params (star :: ps) (r :: rs)
      = some (params.insert star (joinSegments (r :: rs))) := by
  simp [matchSegments, star, joinSegments]

theorem matchSegments_param (hstar : seg ≠ star) (hcolon : seg.head? = some 58) :
    matchSegments params (seg :: ps) (r :: rs)
      = matchSegments (params.insert seg.tail r) ps rs := by
  have hne : seg ≠ bytes "*" := hstar
  rw [matchSegments, if_neg hne, if_pos hcolon]

theorem matchSegments_literal (hstar : seg ≠ star) (hcolon : seg.head? ≠ some 58) :
    matchSegments params (seg :: ps) (r :: rs)
      = if seg = r then matchSegments params ps rs else none := by
  have hne : seg ≠ bytes "*" := hstar
  rw [matchSegments, if_neg hne, if_neg hcolon, ite_not]

end Walk

/-! ## Soundness and completeness -/

section Substitution

variable {σ σ' : Assignment} {seg : Bytes} {ps rs : List Bytes}

theorem substituteSegment_star (σ : Assignment) : substituteSegment σ star = (σ star).getD [] :=
  if_pos rfl

theorem substituteSegment_param {name : Bytes} (hstar : seg ≠ star)
    (hname : paramName seg = some name) : substituteSegment σ seg = (σ name).getD [] := by
  rw [substituteSegment, if_neg hstar, hname]

theorem substituteSegment_literal (hstar : seg ≠ star) (hname : paramName seg = none) :
    substituteSegment σ seg = [seg] := by
  rw [substituteSegment, if_neg hstar, hname]

theorem substitute_cons (σ : Assignment) (seg : Bytes) (ps : List Bytes) :
    substitute σ (seg :: ps) = substituteSegment σ seg ++ substitute σ ps := List.flatMap_cons

/-- Only the names of the pattern matter. -/
theorem substitute_congr (hnames : ∀ name ∈ names ps, σ name = σ' name)
    (hstar : star ∈ ps → σ star = σ' star) : substitute σ ps = substitute σ' ps := by
  refine List.flatMap_congr fun seg hseg => ?_
  rcases paramName_cases seg with rfl | ⟨hne, -, hname⟩ | ⟨hne, -, hname⟩
  · rw [substituteSegment_star, substituteSegment_star, hstar hseg]
  · rw [substituteSegment_param hne hname, substituteSegment_param hne hname,
      hnames seg.tail (List.mem_filterMap.mpr ⟨seg, hseg, hname⟩)]
  · rw [substituteSegment_literal hne hname, substituteSegment_literal hne hname]

/-- **Completeness**: on a substituted pattern the walk succeeds, and captures what was
    substituted. -/
theorem matchSegments_substitute (hps : IsPattern ps)
    (hparam : ∀ name ∈ names ps, ∃ s, σ name = some [s])
    (hrest : star ∈ ps → ∃ ss, σ star = some ss ∧ ss ≠ []) (params : StrMap) :
    ∃ params', matchSegments params ps (substitute σ ps) = some params' ∧
      ∀ key, params'[key]? =
        if key ∈ names ps ∨ (key = star ∧ star ∈ ps) then (σ key).map joinSegments
        else params[key]? := by
  -- on the pattern; each of its segments takes what it was replaced by
  induction ps generalizing params with
  | nil => exact ⟨params, rfl, fun key => by simp [names]⟩
  | cons seg ps ih =>
      have hparam' : ∀ name ∈ names ps, ∃ s, σ name = some [s] := fun name hname =>
        hparam name (((List.sublist_cons_self seg ps).filterMap paramName).subset hname)
      have hrest' : star ∈ ps → ∃ ss, σ star = some ss ∧ ss ≠ [] := fun h =>
        hrest (List.mem_cons_of_mem _ h)
      rw [substitute_cons]
      rcases paramName_cases seg with rfl | ⟨hne, hcolon, hname⟩ | ⟨hne, hcolon, hname⟩
      · -- the last segment
        obtain rfl : ps = [] := hps.last [] ps rfl
        obtain ⟨ss, hss, hnil⟩ := hrest List.mem_cons_self
        obtain ⟨s, ss, rfl⟩ := List.exists_cons_of_ne_nil hnil
        rw [substituteSegment_star, hss, Option.getD_some, substitute, List.flatMap_nil,
          List.append_nil, matchSegments_star]
        refine ⟨_, rfl, fun key => ?_⟩
        rw [names_cons_literal paramName_star]
        by_cases hkey : key = star
        · subst hkey
          simp [hss]
        · rw [HttpResponse.getElem?_insert_of_ne (Ne.symm hkey)]
          simp [names, hkey]
      · obtain ⟨s, hs⟩ := hparam seg.tail (by rw [names_cons_param hname]; exact List.mem_cons_self)
        rw [substituteSegment_param hne hname, hs, Option.getD_some, List.singleton_append,
          matchSegments_param hne hcolon]
        obtain ⟨params', hmatch, hheld⟩ := ih hps.tail hparam' hrest' (params.insert seg.tail s)
        refine ⟨params', hmatch, fun key => ?_⟩
        rw [hheld key, names_cons_param hname]
        by_cases hkey : key = seg.tail
        · subst hkey
          simp [hs, joinSegments_singleton]
        · rw [HttpResponse.getElem?_insert_of_ne (Ne.symm hkey)]
          simp [hkey, Ne.symm hne]
      · rw [substituteSegment_literal hne hname, List.singleton_append,
          matchSegments_literal hne hcolon, if_pos rfl]
        obtain ⟨params', hmatch, hheld⟩ := ih hps.tail hparam' hrest' params
        refine ⟨params', hmatch, fun key => ?_⟩
        rw [hheld key, names_cons_literal hname]
        simp [Ne.symm hne]

theorem assigns_nil : Assigns [] fun _ => none :=
  ⟨fun _ h => by simp [names] at h, fun h => by simp at h, fun _ h => by simp at h⟩

theorem assigns_star (hne : rs ≠ []) (hrs : ∀ r ∈ rs, IsSegment 47 r) :
    Assigns [star] fun name => if name = star then some rs else none := by
  refine ⟨fun name hm => ?_, fun _ => ⟨rs, if_pos rfl, hne, hrs⟩, fun name hsome => ?_⟩
  · rw [names_cons_literal paramName_star] at hm
    simp [names] at hm
  · by_cases hkey : name = star
    · exact .inr ⟨hkey, List.mem_cons_self⟩
    · simp [hkey] at hsome

/-- A parameter in front, with a segment of its own. -/
theorem Assigns.param_cons (h : Assigns ps σ) (hps : IsPattern (seg :: ps)) (hne : seg ≠ star)
    (hname : paramName seg = some seg.tail) {r : Bytes} (hr : IsSegment 47 r) :
    Assigns (seg :: ps) (Function.update σ seg.tail (some [r])) ∧
      substitute (Function.update σ seg.tail (some [r])) (seg :: ps) = r :: substitute σ ps := by
  have hdistinct := hps.distinct
  have hnamed := hps.named
  rw [names_cons_param hname] at hdistinct hnamed
  have hfresh : seg.tail ∉ names ps := (List.nodup_cons.mp hdistinct).1
  have hother : star ≠ seg.tail := fun heq => hnamed (heq ▸ List.mem_cons_self)
  have hkept : ∀ name ≠ seg.tail, Function.update σ seg.tail (some [r]) name = σ name :=
    fun name hkey => Function.update_of_ne hkey _ _
  refine ⟨⟨fun name hm => ?_, fun hm => ?_, fun name hsome => ?_⟩, ?_⟩
  · by_cases hkey : name = seg.tail
    · exact ⟨r, by rw [hkey, Function.update_self], hr⟩
    · rw [names_cons_param hname] at hm
      rw [hkept name hkey]
      exact h.param name ((List.mem_cons.mp hm).resolve_left hkey)
  · rw [hkept star hother]
    exact h.rest ((List.mem_cons.mp hm).resolve_left (Ne.symm hne))
  · rw [names_cons_param hname]
    by_cases hkey : name = seg.tail
    · exact .inl (hkey ▸ List.mem_cons_self)
    · rw [hkept name hkey] at hsome
      exact (h.only name hsome).imp (List.mem_cons_of_mem _)
        fun hm => ⟨hm.1, List.mem_cons_of_mem _ hm.2⟩
  · have hsame : substitute (Function.update σ seg.tail (some [r])) ps = substitute σ ps :=
      substitute_congr (fun name hm => hkept name fun heq => hfresh (heq ▸ hm))
        fun _ => hkept star hother
    rw [substitute_cons, substituteSegment_param hne hname, Function.update_self, hsame]
    rfl

/-- A literal in front is nobody's name. -/
theorem Assigns.literal_cons (h : Assigns ps σ) (hne : seg ≠ star)
    (hname : paramName seg = none) : Assigns (seg :: ps) σ := by
  refine ⟨?_, fun hm => h.rest ((List.mem_cons.mp hm).resolve_left (Ne.symm hne)), ?_⟩
  · rw [names_cons_literal hname]
    exact h.param
  · rw [names_cons_literal hname]
    exact fun name hsome => (h.only name hsome).imp_right
      fun hm => ⟨hm.1, List.mem_cons_of_mem _ hm.2⟩

/-- **Soundness**: a walk that succeeds has come upon a substitution. -/
theorem substitute_of_matchSegments (hps : IsPattern ps) (hrs : ∀ r ∈ rs, IsSegment 47 r)
    {params : StrMap} (h : (matchSegments params ps rs).isSome) :
    ∃ σ, Assigns ps σ ∧ substitute σ ps = rs := by
  -- on the pattern, with the rest of the path
  induction ps generalizing rs params with
  | nil =>
      cases rs with
      | nil => exact ⟨_, assigns_nil, rfl⟩
      | cons r rs => simp [matchSegments] at h
  | cons seg ps ih =>
      cases rs with
      | nil => simp [matchSegments] at h
      | cons r rs =>
          have hr := hrs r List.mem_cons_self
          have hrs' : ∀ s ∈ rs, IsSegment 47 s := fun s hs => hrs s (List.mem_cons_of_mem _ hs)
          rcases paramName_cases seg with rfl | ⟨hne, hcolon, hname⟩ | ⟨hne, hcolon, hname⟩
          · obtain rfl : ps = [] := hps.last [] ps rfl
            refine ⟨_, assigns_star (List.cons_ne_nil r rs) hrs, ?_⟩
            simp [substitute, substituteSegment_star]
          · rw [matchSegments_param hne hcolon] at h
            obtain ⟨σ, hσ, hsub⟩ := ih hps.tail hrs' h
            obtain ⟨hassigns, hsub'⟩ := hσ.param_cons hps hne hname hr
            exact ⟨_, hassigns, by rw [hsub', hsub]⟩
          · rw [matchSegments_literal hne hcolon] at h
            split at h
            next heq =>
              obtain ⟨σ, hσ, hsub⟩ := ih hps.tail hrs' h
              refine ⟨σ, hσ.literal_cons hne hname, ?_⟩
              rw [substitute_cons, substituteSegment_literal hne hname, hsub, heq]
              rfl
            next => simp at h

end Substitution

/-- The assignment turns the pattern of `r` into the segments of `path`. -/
structure Fits (r : Route) (path : Bytes) (σ : Assignment) : Prop where
  assigns : Assigns (segments 47 r.pattern) σ
  path : substitute σ (segments 47 r.pattern) = segments 47 path

/-- The captures are the assignment. -/
theorem Fits.holds {r : Route} {path : Bytes} {σ : Assignment}
    (hps : IsPattern (segments 47 r.pattern)) (h : Fits r path σ) :
    ∃ params, r.match path = some params ∧ Holds params σ := by
  obtain ⟨params, hmatch, hheld⟩ := matchSegments_substitute hps
    (fun name hname => (h.assigns.param name hname).imp fun _ hs => hs.1)
    (fun hstar => (h.assigns.rest hstar).imp fun _ hs => ⟨hs.1, hs.2.1⟩) ∅
  refine ⟨params, ?_, fun key => ?_⟩
  · rw [Route.match, split_eq, split_eq, ← h.path]
    exact hmatch
  · rw [hheld key]
    split
    · rfl
    next hnot =>
      have hnone : σ key = none := by
        by_contra hsome
        exact hnot (h.assigns.only key (Option.isSome_iff_ne_none.mpr hsome))
      simp [hnone]

/-- Two assignments with the same captures. -/
theorem Assigns.eq_of_holds {ps : List Bytes} {σ σ' : Assignment} {params : StrMap}
    (h : Assigns ps σ) (h' : Assigns ps σ') (hheld : Holds params σ) (hheld' : Holds params σ') :
    σ = σ' := by
  -- a segment or segments, which the joined string gives back
  have hsegments : ∀ {σ : Assignment}, Assigns ps σ → ∀ name ss, σ name = some ss →
      ∀ s ∈ ss, IsSegment 47 s := by
    intro σ h name ss hss s hs
    rcases h.only name (by simp [hss]) with hname | ⟨rfl, hstar⟩
    · obtain ⟨t, ht, hseg⟩ := h.param name hname
      cases hss.symm.trans ht
      exact List.mem_singleton.mp hs ▸ hseg
    · obtain ⟨ts, hts, -, hseg⟩ := h.rest hstar
      cases hss.symm.trans hts
      exact hseg s hs
  funext name
  have hsame : (σ name).map joinSegments = (σ' name).map joinSegments :=
    (hheld name).symm.trans (hheld' name)
  cases hσ : σ name with
  | none =>
      rw [hσ, Option.map_none] at hsame
      exact (Option.map_eq_none_iff.mp hsame.symm).symm
  | some ss =>
      rw [hσ, Option.map_some] at hsame
      obtain ⟨ss', hσ', hjoin⟩ := Option.map_eq_some_iff.mp hsame.symm
      rw [hσ', ← segments_joinSegments (hsegments h name ss hσ), ← hjoin,
        segments_joinSegments (hsegments h' name ss' hσ')]

/-- **Matching is substitution.** A path matches a pattern if and only if some assignment
    turns the pattern into the segments of the path; there is only one, and it is what
    `match` captures.  Repeated and trailing slashes of the path do not count. -/
theorem match_iff_substitution (r : Route) (hps : IsPattern (segments 47 r.pattern))
    (path : Bytes) :
    ((r.match path).isSome ↔ ∃ σ, Fits r path σ) ∧
      (∀ σ σ', Fits r path σ → Fits r path σ' → σ = σ') ∧
      (∀ params, r.match path = some params → ∃ σ, Fits r path σ ∧ Holds params σ) ∧
      ∀ path', SameButSpacing 47 path path' → r.match path' = r.match path := by
  have hsound : ∀ {params : StrMap}, r.match path = some params → ∃ σ, Fits r path σ := by
    intro params h
    rw [Route.match, split_eq, split_eq] at h
    obtain ⟨σ, hσ, hsub⟩ := substitute_of_matchSegments hps (fun s hs => isSegment_of_mem hs)
      (Option.isSome_iff_exists.mpr ⟨params, h⟩)
    exact ⟨σ, hσ, hsub⟩
  refine ⟨⟨fun h => ?_, ?_⟩, ?_, ?_, ?_⟩
  · obtain ⟨params, hmatch⟩ := Option.isSome_iff_exists.mp h
    exact hsound hmatch
  · rintro ⟨σ, hσ⟩
    obtain ⟨params, hmatch, -⟩ := hσ.holds hps
    simp [hmatch]
  · intro σ σ' hσ hσ'
    obtain ⟨params, hmatch, hheld⟩ := hσ.holds hps
    obtain ⟨params', hmatch', hheld'⟩ := hσ'.holds hps
    cases hmatch.symm.trans hmatch'
    exact hσ.assigns.eq_of_holds hσ'.assigns hheld hheld'
  · intro params hmatch
    obtain ⟨σ, hσ⟩ := hsound hmatch
    obtain ⟨params', hmatch', hheld⟩ := hσ.holds hps
    cases hmatch.symm.trans hmatch'
    exact ⟨σ, hσ, hheld⟩
  · intro path' hsame
    rw [Route.match, Route.match, split_eq path', split_eq path, hsame.segments_eq]

theorem star_last_iff (ps : List Bytes) :
    (∀ before after, ps = before ++ star :: after → after = []) ↔ star ∉ ps.dropLast := by
  constructor
  · intro h hmem
    obtain ⟨before, after, hps⟩ := List.append_of_mem hmem
    have hne : ps ≠ [] := by
      rintro rfl
      simp at hmem
    have hlast := h before (after ++ [ps.getLast hne]) (by
      rw [← List.cons_append, ← List.append_assoc, ← hps, List.dropLast_append_getLast hne])
    simp at hlast
  · rintro h before after rfl
    by_contra hne
    obtain ⟨b, after, rfl⟩ := List.exists_cons_of_ne_nil hne
    exact h (by simp)

instance (ps : List Bytes) : Decidable (IsPattern ps) :=
  decidable_of_iff ((names ps).Nodup ∧ star ∉ names ps ∧ star ∉ ps.dropLast)
    ⟨fun h => ⟨h.1, h.2.1, (star_last_iff ps).mpr h.2.2⟩,
      fun h => ⟨h.distinct, h.named, (star_last_iff ps).mp h.last⟩⟩

/-- A handler that does nothing. -/
def idle : HttpHandler where
  run _ req res w := ⟨req, res, w, false⟩
  reads _ _ _ _ := le_rfl

/-- A parameter and a rest of two segments, with slashes to spare. -/
theorem match_iff_substitution_user :
    ∃ σ, Fits ⟨bytes "GET", bytes "/user/:id/*", idle⟩ (bytes "//user/42//css/a.css/") σ :=
  ((match_iff_substitution ⟨bytes "GET", bytes "/user/:id/*", idle⟩ (by decide +kernel)
    (bytes "//user/42//css/a.css/")).1).mp (by decide +kernel)

/-! ## The first route that qualifies -/

/-- The path fits the pattern, and the method is the route's. -/
def Qualifies (r : Route) (req : HttpRequest) : Prop :=
  (r.method = bytes "*" ∨ r.method = req.method) ∧ (r.match req.path).isSome

end Route

namespace HttpServer

/-- `r` is the first route that qualifies, behind the routes `before`, and captures
    `params`. -/
structure FirstMatch (routes : List Route) (req : HttpRequest) (before : List Route) (r : Route)
    (params : StrMap) : Prop where
  split : ∃ after, routes = before ++ r :: after
  earlier : ∀ r' ∈ before, ¬ r'.Qualifies req
  method : r.method = bytes "*" ∨ r.method = req.method
  captures : r.match req.path = some params

/-- The error for a request that no route handles. -/
def unrouted (routes : List Route) (req : HttpRequest) (w : Wire) : Wire :=
  if ∃ r ∈ routes, (r.match req.path).isSome then sendError w 405 (bytes "Method Not Allowed")
  else sendError w 404 (bytes "Not Found")

section Dispatch

variable {turn : Nat} {req : HttpRequest} {res : HttpResponse} {w : Wire} {i : Nat}
  {pathMatched : Bool} {r : Route} {rs routes before : List Route} {params : StrMap}

/-- What the loop knows behind a route that does not qualify. -/
theorem dispatch_skip (h : ¬ r.Qualifies req) :
    dispatch turn req res w i pathMatched (r :: rs)
      = dispatch turn req res w (i + 1) (pathMatched || (r.match req.path).isSome) rs := by
  rw [dispatch]
  cases hmatch : r.match req.path with
  | none => simp
  | some params =>
      have hmethod : r.method ≠ bytes "*" ∧ r.method ≠ req.method := by
        rw [Route.Qualifies, hmatch] at h
        simpa using h
      simp [hmethod]

theorem dispatch_take (hmethod : r.method = bytes "*" ∨ r.method = req.method)
    (hmatch : r.match req.path = some params) :
    dispatch turn req res w i pathMatched (r :: rs)
      = callHandler turn r.handler { req with params := params } res (w.record (.handler i)) := by
  have hnot : ¬ (r.method ≠ bytes "*" ∧ r.method ≠ req.method) := by
    rw [not_and_or, not_not, not_not]
    exact hmethod
  rw [dispatch, hmatch]
  simp only [if_neg hnot]

theorem dispatch_append (h : ∀ r ∈ before, ¬ r.Qualifies req) :
    dispatch turn req res w i pathMatched (before ++ rs)
      = dispatch turn req res w (i + before.length)
          (pathMatched || before.any fun r => (r.match req.path).isSome) rs := by
  -- on the routes passed over
  induction before generalizing i pathMatched with
  | nil => simp
  | cons r before ih =>
      rw [List.cons_append, dispatch_skip (h r List.mem_cons_self),
        ih fun r' hr' => h r' (List.mem_cons_of_mem _ hr'), List.any_cons, Bool.or_assoc,
        List.length_cons, Nat.add_assoc, Nat.add_comm 1]

/-- **The first match handles the request.** -/
theorem dispatch_firstMatch (h : FirstMatch routes req before r params) :
    dispatch turn req res w 0 false routes
      = callHandler turn r.handler { req with params := params } res
          (w.record (.handler before.length)) := by
  obtain ⟨after, rfl⟩ := h.split
  rw [dispatch_append h.earlier, dispatch_take h.method h.captures, Nat.zero_add]

/-- **Without a match there is an error.** -/
theorem dispatch_unrouted (h : ∀ r ∈ routes, ¬ r.Qualifies req) :
    dispatch turn req res w 0 false routes = ⟨req, res, unrouted routes req w, false⟩ := by
  have hnone : dispatch turn req res w 0 false (routes ++ [])
      = dispatch turn req res w (0 + routes.length)
          (false || routes.any fun r => (r.match req.path).isSome) [] := dispatch_append h
  rw [List.append_nil] at hnone
  rw [hnone, dispatch, unrouted, Bool.false_or]
  simp only [List.any_eq_true]

/-- One of the two is the case. -/
theorem firstMatch_or (routes : List Route) (req : HttpRequest) :
    (∃ before r params, FirstMatch routes req before r params) ∨
      ∀ r ∈ routes, ¬ r.Qualifies req := by
  induction routes with
  | nil => exact .inr (by simp)
  | cons r rs ih =>
      by_cases hr : r.Qualifies req
      · obtain ⟨params, hparams⟩ := Option.isSome_iff_exists.mp hr.2
        exact .inl ⟨[], r, params, ⟨rs, rfl⟩, by simp, hr.1, hparams⟩
      · refine ih.imp ?_ fun h r' hr' => ?_
        · rintro ⟨before, r', params, ⟨after, rfl⟩, hearlier, hmethod, hcaptures⟩
          refine ⟨r :: before, r', params, ⟨after, rfl⟩, fun r'' hr'' => ?_, hmethod, hcaptures⟩
          rcases List.mem_cons.mp hr'' with rfl | hr''
          · exact hr
          · exact hearlier r'' hr''
        · rcases List.mem_cons.mp hr' with rfl | hr'
          · exact hr
          · exact h r' hr'

end Dispatch

/-! ## The middlewares -/

/-- The middlewares of a list, numbered from `i` on, are called one after another, each
    on what the one before it left, and all of them pass. -/
inductive Passing (turn : Nat) : Nat → HttpRequest → HttpResponse → Wire → List Middleware →
    HttpRequest → HttpResponse → Wire → Prop where
  | nil (i : Nat) (req : HttpRequest) (res : HttpResponse) (w : Wire) :
      Passing turn i req res w [] req res w
  | cons {i : Nat} {req req' req'' : HttpRequest} {res res' res'' : HttpResponse}
      {w w' w'' : Wire} {mw : Middleware} {mws : List Middleware}
      (first : mw.run turn req res (w.record (.middleware i)) = ⟨req', res', w', .pass⟩)
      (rest : Passing turn (i + 1) req' res' w' mws req'' res'' w'') :
      Passing turn i req res w (mw :: mws) req'' res'' w''

section Middlewares

variable {turn i : Nat} {req req' : HttpRequest} {res res' : HttpResponse} {w w' : Wire}
  {before mws : List Middleware}

/-- Middlewares that pass hand over to those behind them. -/
theorem Passing.run (h : Passing turn i req res w before req' res' w') (mws : List Middleware) :
    runMiddlewares turn req res w i (before ++ mws)
      = runMiddlewares turn req' res' w' (i + before.length) mws := by
  induction h with
  | nil => rfl
  | cons first rest ih =>
      rw [List.cons_append, runMiddlewares, first]
      simp only
      rw [ih, List.length_cons, Nat.add_assoc, Nat.add_comm 1]

/-- All pass, or there is a first one that does not. -/
theorem passing_or (turn i : Nat) (req : HttpRequest) (res : HttpResponse) (w : Wire)
    (mws : List Middleware) :
    (∃ req' res' w', Passing turn i req res w mws req' res' w') ∨
      ∃ before mw after req' res' w', mws = before ++ mw :: after ∧
        Passing turn i req res w before req' res' w' ∧
        (mw.run turn req' res' (w'.record (.middleware (i + before.length)))).verdict ≠ .pass := by
  induction mws generalizing i req res w with
  | nil => exact .inl ⟨req, res, w, .nil i req res w⟩
  | cons mw mws ih =>
      obtain ⟨⟨req₁, res₁, w₁, verdict⟩, hrun⟩ : ∃ out,
          mw.run turn req res (w.record (.middleware i)) = out := ⟨_, rfl⟩
      by_cases hpass : verdict = .pass
      · subst hpass
        rcases ih (i + 1) req₁ res₁ w₁ with ⟨req', res', w', h⟩ |
          ⟨before, mw', after, req', res', w', rfl, h, hstop⟩
        · exact .inl ⟨req', res', w', .cons hrun h⟩
        · refine .inr ⟨mw :: before, mw', after, req', res', w', rfl, .cons hrun h, ?_⟩
          rwa [List.length_cons, Nat.add_comm before.length, ← Nat.add_assoc]
      · refine .inr ⟨[], mw, mws, req, res, w, rfl, .nil i req res w, ?_⟩
        rw [List.length_nil, Nat.add_zero, hrun]
        exact hpass

theorem runMiddlewares_stop {mw : Middleware}
    (h : (mw.run turn req res (w.record (.middleware i))).verdict ≠ .pass) :
    runMiddlewares turn req res w i (mw :: mws)
      = mw.run turn req res (w.record (.middleware i)) := by
  rw [runMiddlewares]
  split
  next hpass => exact absurd hpass h
  next => rfl

end Middlewares

/-! ## A request -/

/-- What becomes of a request: the connection, and whether the loop goes on.  A middleware
    that does not pass is the last thing called; otherwise the first route that qualifies
    is, or the answer is an error. -/
inductive Served (srv : HttpServer) (k : Nat) (req : HttpRequest) (w : Wire) :
    Wire × Bool → Prop where
  | stopped (before : List Middleware) (mw : Middleware) (after : List Middleware)
      (req' : HttpRequest) (res' : HttpResponse) (w' : Wire) (out : MiddlewareResult)
      (hmws : srv.middlewares = before ++ mw :: after)
      (hpass : Passing k 0 req .init w before req' res' w')
      (hout : mw.run k req' res' (w'.record (.middleware before.length)) = out)
      (hstop : out.verdict = .stop) : Served srv k req w (out.wire, out.req.keepAlive)
  | threw (before : List Middleware) (mw : Middleware) (after : List Middleware)
      (req' : HttpRequest) (res' : HttpResponse) (w' : Wire) (out : MiddlewareResult)
      (hmws : srv.middlewares = before ++ mw :: after)
      (hpass : Passing k 0 req .init w before req' res' w')
      (hout : mw.run k req' res' (w'.record (.middleware before.length)) = out)
      (hthrew : out.verdict = .threw) : Served srv k req w (out.wire, false)
  | handled (req' : HttpRequest) (res' : HttpResponse) (w' : Wire) (before : List Route)
      (r : Route) (params : StrMap) (out : HandlerResult)
      (hpass : Passing k 0 req .init w srv.middlewares req' res' w')
      (hfirst : FirstMatch srv.routes req' before r params)
      (hout : callHandler k r.handler { req' with params := params } res'
        (w'.record (.handler before.length)) = out) :
      Served srv k req w (out.wire, out.req.keepAlive)
  | unrouted (req' : HttpRequest) (res' : HttpResponse) (w' : Wire)
      (hpass : Passing k 0 req .init w srv.middlewares req' res' w')
      (hnone : ∀ r ∈ srv.routes, ¬ r.Qualifies req') :
      Served srv k req w (unrouted srv.routes req' w', req'.keepAlive)

/-- The rule leaves no choice. -/
theorem Served.eq_serve {srv : HttpServer} {k : Nat} {req : HttpRequest} {w : Wire}
    {out : Wire × Bool} (h : Served srv k req w out) : srv.serve k req w = out := by
  cases h with
  | stopped before mw after req' res' w' result hmws hpass hout hstop =>
      have hrun : runMiddlewares k req .init w 0 srv.middlewares = result := by
        rw [hmws, hpass.run, Nat.zero_add, runMiddlewares_stop (by simp [hout, hstop]), hout]
      simp only [serve, hrun, hstop]
  | threw before mw after req' res' w' result hmws hpass hout hthrew =>
      have hrun : runMiddlewares k req .init w 0 srv.middlewares = result := by
        rw [hmws, hpass.run, Nat.zero_add, runMiddlewares_stop (by simp [hout, hthrew]), hout]
      simp only [serve, hrun, hthrew]
  | handled req' res' w' before r params result hpass hfirst hout =>
      have hrun := hpass.run []
      rw [List.append_nil, runMiddlewares] at hrun
      simp only [serve, hrun, dispatch_firstMatch hfirst, hout]
  | unrouted req' res' w' hpass hnone =>
      have hrun := hpass.run []
      rw [List.append_nil, runMiddlewares] at hrun
      simp only [serve, hrun, dispatch_unrouted hnone]

/-- **Dispatch.** What a server does with a request is what the rule says: the middlewares
    are called in order up to the first that does not pass, and after it nothing; if all
    pass, the handler of the first route that qualifies is called, with the captures of
    that route in `params`, and if none qualifies the answer is 405 when some pattern fits
    the path and 404 when none does. -/
theorem serve_iff_served (srv : HttpServer) (k : Nat) (req : HttpRequest) (w : Wire)
    (out : Wire × Bool) : srv.serve k req w = out ↔ Served srv k req w out := by
  refine ⟨?_, Served.eq_serve⟩
  rintro rfl
  -- the rule applies in one of its four cases, and gives what `serve` does
  have hcase : ∃ out, Served srv k req w out := by
    rcases passing_or k 0 req .init w srv.middlewares with ⟨req', res', w', hpass⟩ |
      ⟨before, mw, after, req', res', w', hmws, hpass, hstop⟩
    · rcases firstMatch_or srv.routes req' with ⟨before, r, params, hfirst⟩ | hnone
      · exact ⟨_, .handled req' res' w' before r params _ hpass hfirst rfl⟩
      · exact ⟨_, .unrouted req' res' w' hpass hnone⟩
    · rw [Nat.zero_add] at hstop
      cases hverdict : (mw.run k req' res' (w'.record (.middleware before.length))).verdict with
      | pass => exact absurd hverdict hstop
      | stop => exact ⟨_, .stopped before mw after req' res' w' _ hmws hpass rfl hverdict⟩
      | threw => exact ⟨_, .threw before mw after req' res' w' _ hmws hpass rfl hverdict⟩
  obtain ⟨out, hout⟩ := hcase
  rw [hout.eq_serve]
  exact hout

end HttpServer

end CoroutineHttp.Http
