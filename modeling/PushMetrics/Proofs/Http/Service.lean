import PushMetrics.Http.Service
import PushMetrics.Proofs.Http.Failure
import PushMetrics.Proofs.Manager.Running
import PushMetrics.Proofs.Text.Utf8

/-!
# All or nothing

A request that is not answered with 200 leaves the store alone. A batch is refused as a whole, with the messages of its
invalid items; or it is stored, answered and left behind as if its items had been posted one by one.
-/

namespace PushMetrics.Http

open Json Manager

variable {r : Request} {s t : Storage × World}

/-! ## Requests that change nothing -/

theorem value_state (r : Request) (s : Storage × World) : (value Storage.backend r s).2 = s := by
  unfold value
  split
  · rfl
  · rename_i q _
    split
    · rfl
    · rename_i kind _
      have hget := get_state kind q.id s
      split <;> rename_i hanswer <;> rw [hanswer] at hget <;> exact hget

theorem ping_state (s : Storage × World) : (ping Storage.backend s).2 = s := by
  simp only [ping, Storage.backend]
  split <;> simp_all

theorem index_state (s : Storage × World) : (index Storage.backend s).2 = s := by
  simp only [index, Storage.backend]
  split <;> simp_all

theorem update_state (h : (update Storage.backend r s).1.status ≠ 200) : (update Storage.backend r s).2 = s := by
  unfold update at h ⊢
  split
  · rfl
  · rename_i hread
    rw [hread] at h
    split
    · rfl
    · rename_i hmetric
      simp only [hmetric] at h
      split
      · rename_i hsave
        rw [hsave] at h
        exact absurd rfl h
      · rename_i hsave
        exact save_error hsave

theorem updates_state (h : (updates Storage.backend r s).1.status ≠ 200) : (updates Storage.backend r s).2 = s := by
  unfold updates at h ⊢
  split
  · rfl
  · rename_i hread
    rw [hread] at h
    split
    · rfl
    · rename_i hvalid
      simp only [hvalid, ↓reduceIte] at h
      split
      · rename_i hsave
        rw [hsave] at h
        exact absurd rfl h
      · rename_i hsave
        exact saveBatch_error hsave

theorem handle_state (h : (handle Storage.backend r s).1.status ≠ 200) : (handle Storage.backend r s).2 = s := by
  unfold handle at h ⊢
  split <;> rename_i hmethod hpath
  · simp only [hmethod, hpath] at h
    exact update_state h
  · simp only [hmethod, hpath] at h
    exact updates_state h
  · exact value_state r s
  · exact ping_state s
  · exact index_state s
  · rfl

theorem handle_state_of_asks (h : (r.method, r.path) ∈ [("GET", "/"), ("GET", "/ping"), ("POST", "/value/")]) :
    (handle Storage.backend r s).2 = s := by
  simp only [List.mem_cons, Prod.mk.injEq, List.not_mem_nil, or_false] at h
  unfold handle
  obtain ⟨hmethod, hpath⟩ | ⟨hmethod, hpath⟩ | ⟨hmethod, hpath⟩ := h <;> rw [hmethod, hpath]
  · exact index_state s
  · exact ping_state s
  · exact value_state r s

/-! ## Posting -/

/-- A request that posts to a path; its length is allowed, and its body is read as `a`. -/
structure Posts {α : Type} (decode : Value → Option α) (path : String) (r : Request) (a : α) : Prop where
  method : r.method = "POST"
  path : r.path = path
  declared : refuseLength? r bodyLimit = none
  length : r.body.length ≤ bodyLimit
  body : (Value.ofBytes? r.body).bind decode = some a

theorem Posts.readJson {α : Type} {decode : Value → Option α} {path : String} {a : α} (h : Posts decode path r a) :
    readJson decode r = .ok a := by
  simp only [Http.readJson, h.declared, h.body, Nat.not_lt.2 h.length, ↓reduceIte]

variable {p : Payload} {ps : List Payload} {m : Metric} {ms : List Metric}

theorem mem_invalidMessages {text : String} :
    text ∈ invalidMessages ps ↔ ∃ p ∈ ps, ∃ e, p.toMetric = .error e ∧ e.message = text := by
  simp only [invalidMessages, List.mem_filterMap]
  refine exists_congr fun p => and_congr_right fun _ => ?_
  cases p.toMetric <;> simp

theorem invalidMessages_of_valid (h : ps.map Payload.toMetric = ms.map .ok) : invalidMessages ps = [] := by
  refine List.eq_nil_iff_forall_not_mem.2 fun text htext => ?_
  obtain ⟨p, hp, e, herror, -⟩ := mem_invalidMessages.1 htext
  obtain ⟨m, -, hm⟩ := List.mem_map.1 (h ▸ List.mem_map_of_mem (f := Payload.toMetric) hp)
  rw [herror] at hm
  cases hm

theorem validMetrics_of_valid (h : ps.map Payload.toMetric = ms.map .ok) : validMetrics ps = ms := by
  have hmap : validMetrics ps = (ps.map Payload.toMetric).filterMap Except.toOption := by
    rw [List.filterMap_map]
    rfl
  rw [hmap, h, List.filterMap_map]
  exact List.filterMap_some

theorem handle_update {saved : Metric} (h : Posts Payload.decode? "/update/" r p) (hp : p.toMetric = .ok m)
    (hsave : Manager.save Storage.backend m s = (.ok saved, t)) :
    handle Storage.backend r s = (.json 200 (Payload.ofMetric saved).encode, t) := by
  simp only [handle, h.method, h.path, update, h.readJson, hp, hsave]

theorem handle_updates_invalid (h : Posts (Value.list? Payload.decode?) "/updates/" r ps)
    (hinvalid : invalidMessages ps ≠ []) :
    handle Storage.backend r s = (.refuse 400 "Invalid metrics" (invalidMessages ps), s) := by
  simp only [handle, h.method, h.path, updates, h.readJson]
  exact if_pos hinvalid

theorem handle_updates_valid (h : Posts (Value.list? Payload.decode?) "/updates/" r ps)
    (hvalid : ps.map Payload.toMetric = ms.map .ok) (hstatus : (handle Storage.backend r s).1.status = 200) :
    ∃ results t, saveBatch Storage.backend ms s = (.ok results, t) ∧
      handle Storage.backend r s = (.json 200 (Payload.encodeAll (results.map Payload.ofMetric)), t) := by
  simp only [handle, h.method, h.path, updates, h.readJson, invalidMessages_of_valid hvalid,
    validMetrics_of_valid hvalid, ne_eq, not_true_eq_false, ↓reduceIte] at hstatus ⊢
  rcases hsave : saveBatch Storage.backend ms s with ⟨e | results, t⟩
  · rw [hsave] at hstatus
    cases hstatus
  · exact ⟨results, t, rfl, rfl⟩

/-! ## One by one -/

/-- Requests handled one after another. -/
def handleAll {σ : Type} (b : Backend σ) : List Request → σ → List Response × σ
  | [], s => ([], s)
  | r :: rest, s =>
    let (answer, s) := handle b r s
    let (answers, s) := handleAll b rest s
    (answer :: answers, s)

/-- Metrics that are resolved over a store are answered in the same way when they are posted one by one, and what is
pending in the end is then what has been written. -/
theorem handleAll_updates {pending after : Pending} {results : List Metric} {rs : List Request}
    (hresolve : resolveAll Storage.backend pending ms s = (.ok (results, after), s))
    (hnames : ∀ m ∈ ms, s.1.Accepts s.2 m.name) (hvalid : ps.map Payload.toMetric = ms.map .ok)
    (hposts : List.Forall₂ (Posts Payload.decode? "/update/") rs ps)
    (hlaid : Storage.Laid pending s.1 s.2 t.1 t.2) :
    ∃ t', handleAll Storage.backend rs t = (results.map fun m => .json 200 (Payload.ofMetric m).encode, t') ∧
      Storage.Laid after s.1 s.2 t'.1 t'.2 := by
  -- Along the requests, what is pending is what the posts so far have written.
  induction hposts generalizing pending results ms t with
  | nil =>
      obtain rfl : ms = [] := by simpa using hvalid
      cases hresolve
      exact ⟨t, rfl, hlaid⟩
  | @cons r p rs ps hpost _ ih =>
      cases ms with
      | nil => cases hvalid
      | cons m ms =>
          obtain ⟨hm, hvalid⟩ := List.cons.inj hvalid
          rw [resolveAll] at hresolve
          split at hresolve
          · cases hresolve
          · rename_i sample s' hsample
            obtain rfl : s' = s := by simpa [hsample] using resolve_state pending m s
            split at hresolve
            · cases hresolve
            · rename_i hrest
              cases hresolve
              obtain ⟨u, hsave, hnext⟩ := save_laid hsample hlaid (hnames m List.mem_cons_self)
                (Storage.takes_of_toMetric hm)
              obtain ⟨t', hall, hlast⟩ := ih hrest (fun m hm => hnames m (List.mem_cons_of_mem _ hm)) hvalid hnext
              refine ⟨t', ?_, hlast⟩
              simp only [handleAll, handle_update hpost hm hsave, hall, List.map_cons]

/-- What handling a request may do to a store, in whatever state that is. Any answer but 200 leaves everything as it
was, and so does asking for the listing, for a sign of life or for a value. A batch with invalid items is refused with
their messages in strictly increasing order, each once; other items with the same messages get the same answer from any
store. A batch of valid items that is answered with 200 is answered with the running merges of its items over what the
store held; posting the items one by one gives the same metrics and in the end the same store. -/
theorem handle_all_or_nothing (r : Request) (s : Storage × World) :
    ((handle Storage.backend r s).1.status ≠ 200 → (handle Storage.backend r s).2 = s) ∧
    ((r.method, r.path) ∈ [("GET", "/"), ("GET", "/ping"), ("POST", "/value/")] →
      (handle Storage.backend r s).2 = s) ∧
    ∀ ps, Posts (Value.list? Payload.decode?) "/updates/" r ps →
      ((∃ p ∈ ps, ∃ e, p.toMetric = .error e) → ∃ details,
        handle Storage.backend r s = (.failure ⟨400, "Invalid metrics", details⟩, s) ∧
        (∀ text, text ∈ details ↔ ∃ p ∈ ps, ∃ e, p.toMetric = .error e ∧ e.message = text) ∧
        details.Pairwise (fun a b => Text.utf8 a < Text.utf8 b) ∧
        ∀ r' ps' s', Posts (Value.list? Payload.decode?) "/updates/" r' ps' → (∀ p, p ∈ ps' ↔ p ∈ ps) →
          handle Storage.backend r' s' = (.failure ⟨400, "Invalid metrics", details⟩, s')) ∧
      ∀ ms, ps.map Payload.toMetric = ms.map .ok → (handle Storage.backend r s).1.status = 200 →
        let merged := runningMerges (heldBy s) ms
        (handle Storage.backend r s).1 = .json 200 (Payload.encodeAll (merged.map Payload.ofMetric)) ∧
        ∀ rs, List.Forall₂ (Posts Payload.decode? "/update/") rs ps → ∃ t,
          handleAll Storage.backend rs s = (merged.map fun m => .json 200 (Payload.ofMetric m).encode, t) ∧
          ∀ name, t.1.get name t.2 =
            (handle Storage.backend r s).2.1.get name (handle Storage.backend r s).2.2 := by
  refine ⟨handle_state, handle_state_of_asks, fun ps hposts => ⟨fun ⟨p, hp, e, he⟩ => ?_, fun ms hvalid hstatus => ?_⟩⟩
  · have hinvalid : ∀ qs : List Payload, p ∈ qs → invalidMessages qs ≠ [] := fun qs hqs hnone => by
      have hmem := mem_invalidMessages.2 ⟨p, hqs, e, he, rfl⟩
      rw [hnone] at hmem
      cases hmem
    refine ⟨Failure.sortedSet (invalidMessages ps), handle_updates_invalid hposts (hinvalid ps hp), fun text => ?_,
      (Failure.pairwise_sortedSet _).imp Text.utf8_lt_utf8, fun r' ps' s' hposts' hsame => ?_⟩
    · rw [Failure.mem_sortedSet, mem_invalidMessages]
    · rw [handle_updates_invalid hposts' (hinvalid ps' ((hsame p).2 hp)), Response.refuse, Failure.ofDetails,
        Failure.sortedSet_congr fun text => ?_]
      simp only [mem_invalidMessages, hsame]
  · obtain ⟨results, t, hsave, hhandle⟩ := handle_updates_valid hposts hvalid hstatus
    obtain ⟨after, hresolve, hnames, hlaid⟩ := saveBatch_ok hsave
    obtain ⟨-, hresults⟩ := resolveAll_ok hresolve
    have hmerged : results = runningMerges (heldBy s) ms := hresults
    rw [hhandle, ← hmerged]
    refine ⟨rfl, fun rs hrs => ?_⟩
    obtain ⟨u, hall, hlast⟩ := handleAll_updates hresolve hnames hvalid hrs (Storage.Laid.refl _ _)
    exact ⟨u, hall, fun name => (hlast.get name).trans (hlaid.get name).symm⟩

def post (path body : String) : Request := ⟨"POST", path, [], Text.utf8 body⟩

theorem posts_post {α : Type} {decode : Value → Option α} {path body : String} {a : α}
    (hpath : (post path body).path = path) (hlength : (Text.utf8 body).length ≤ bodyLimit)
    (hbody : (Value.ofText? body).bind decode = some a) : Posts decode path (post path body) a where
  method := rfl
  path := hpath
  declared := rfl
  length := hlength
  body := by
    rw [Value.ofBytes?, post, Text.symbols_utf8]
    exact hbody

/-- Two hits, a load of zero, and hits counted back below zero. -/
def items : List Payload :=
  [⟨"hits", "counter", some 2, none⟩, ⟨"load", "gauge", none, some (.ofRank false 0)⟩,
    ⟨"hits", "counter", some (-43), none⟩]

/-- Two hits between gauges that have neither name nor value. -/
def spoiled : List Payload :=
  [⟨"", "gauge", none, none⟩, ⟨"hits", "counter", some 2, none⟩, ⟨"", "gauge", none, none⟩]

/-- Forty hits have been counted. -/
def counted : Storage × World := (.memory ⟨.ofMetrics [.counter "hits" 40], true⟩, ⟨⟨Dict.empty⟩, [], 0, []⟩)

/-- A batch that is refused for two items with one message, and one that is stored like its items one by one. -/
theorem handle_all_or_nothing_items :
    (∃ details, handle Storage.backend (post "/updates/" (Payload.encodeAll spoiled)) counted
        = (.failure ⟨400, "Invalid metrics", details⟩, counted) ∧
      (∀ text, text ∈ details ↔ ∃ p ∈ spoiled, ∃ e, p.toMetric = .error e ∧ e.message = text)) ∧
    (handle Storage.backend (post "/updates/" (Payload.encodeAll items)) counted).1
      = .json 200 (Payload.encodeAll [⟨"hits", "counter", some 42, none⟩,
          ⟨"load", "gauge", none, some (.ofRank false 0)⟩, ⟨"hits", "counter", some (-1), none⟩]) ∧
    ∃ answers t, handleAll Storage.backend (items.map fun p => post "/update/" p.encode) counted = (answers, t) ∧
      ∀ name, t.1.get name t.2
        = (handle Storage.backend (post "/updates/" (Payload.encodeAll items)) counted).2.1.get name
          (handle Storage.backend (post "/updates/" (Payload.encodeAll items)) counted).2.2 := by
  have hspoiled : Posts (Value.list? Payload.decode?) "/updates/" (post "/updates/" (Payload.encodeAll spoiled))
    spoiled :=
    posts_post (by decide +kernel) (by decide +kernel) (by decide +kernel)
  have hitems : Posts (Value.list? Payload.decode?) "/updates/" (post "/updates/" (Payload.encodeAll items)) items :=
    posts_post (by decide +kernel) (by decide +kernel) (by decide +kernel)
  have hsingle : List.Forall₂ (Posts Payload.decode? "/update/") (items.map fun p => post "/update/" p.encode) items :=
    .cons (posts_post (by decide +kernel) (by decide +kernel) (by decide +kernel))
      (.cons (posts_post (by decide +kernel) (by decide +kernel) (by decide +kernel))
        (.cons (posts_post (by decide +kernel) (by decide +kernel) (by decide +kernel)) .nil))
  have hstatus : (handle Storage.backend (post "/updates/" (Payload.encodeAll items)) counted).1.status = 200 := by
    simp only [handle, hitems.method, hitems.path, updates, hitems.readJson]
    decide +kernel
  constructor
  · obtain ⟨details, hrefused, hdetails, -⟩ :=
      ((handle_all_or_nothing _ counted).2.2 spoiled hspoiled).1 ⟨_, List.mem_cons_self, .emptyName, by decide +kernel⟩
    exact ⟨details, hrefused, hdetails⟩
  · obtain ⟨hanswer, hone⟩ := ((handle_all_or_nothing _ counted).2.2 items hitems).2
      [.counter "hits" 2, .gauge "load" (.ofRank false 0), .counter "hits" (-43)] (by decide +kernel)
      hstatus
    obtain ⟨t, hall, hsame⟩ := hone _ hsingle
    exact ⟨hanswer.trans (by decide +kernel), _, t, hall, hsame⟩

end PushMetrics.Http
