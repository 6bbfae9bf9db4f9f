import PushMetrics.Collector.Opening
import PushMetrics.Proofs.Http.Answers
import PushMetrics.Proofs.Manager.Merging
import PushMetrics.Proofs.Run
import PushMetrics.Proofs.Store.Restorable

/-!
# Only what may be stored

Whatever is sent to a collector whose store is in memory, all that it holds may be stored, from its first start and
through every restart. So a snapshot that it writes can be restored, and what it answers is a metric again.
-/

namespace PushMetrics

open Storage

/-! ## One request -/

namespace Manager

/-- To serve a request is to make one change, or none. -/
theorem Request.serve_state (request : Request) (s : Storage × World) :
    (request.serve Storage.backend s).2 = s ∨
      ∃ change, (request.serve Storage.backend s).2 = (Storage.backend.apply change s).2 := by
  have hleft := resolveAll_state Dict.empty request.metrics s
  cases hresolved : resolveAll Storage.backend Dict.empty request.metrics s with
  | mk result left =>
      rw [hresolved] at hleft
      obtain rfl : left = s := hleft
      cases result with
      | error e => exact .inl (by rw [serve_of_unresolved hresolved])
      | ok found =>
          by_cases hempty : request.metrics = []
          · exact .inl (by rw [serve_of_empty hempty])
          · refine .inr ⟨request.change found.1 found.2, ?_⟩
            rw [serve_of_resolved hresolved hempty]
            split <;> simp_all

end Manager

namespace Collector

open Http

variable {config : Config} {w w' : World} {storage : Storage} {s t : Storage × World} {label : LifetimeStep}
  {labels : List LifetimeStep} {request : Manager.Request} {r : Request} {body : String}

/-- The store is open in memory, and everything in it may be stored. -/
def Sound (s : Storage × World) : Prop := ∃ c, s.1.InMemory c ∧ c.IsWellFormed

/-- The file of a store that has one is left where it is or replaced by one that can be restored. -/
def Leads (s t : Storage × World) : Prop := ∀ path ∈ s.1.path?, s.2.disk.Replaces t.2.disk path

/-- A request with metrics that may be stored is served: these are merged into what is there. -/
theorem Sound.serve (h : Sound s) (hms : ∀ m ∈ request.metrics, m.isWellFormed) :
    Sound (request.serve Storage.backend s).2 ∧ Leads s (request.serve Storage.backend s).2 ∧
      ∃ c, (request.serve Storage.backend s).1 = .ok (Contents.mergeAll c request.metrics).1 := by
  obtain ⟨c, hc, hwell⟩ := h
  have hmerged := request.serve_eq_mergeAll .asItStands (backend_realizes s.1) ⟨hc.holds s.2, rfl⟩ fun m _ => hc.takes m
  rw [Manager.emptiedBy_asItStands] at hmerged
  obtain ⟨hresult, hholds, -⟩ := hmerged
  have hafter := hwell.mergeAll hms
  rcases request.serve_state s with hsame | ⟨change, hchange⟩
  · rw [hsame]
    exact ⟨⟨c, hc, hwell⟩, fun path _ => .refl _ path, c, hresult⟩
  · obtain ⟨store, after, happly, hstore, hfile⟩ := hc.apply change s.2
    have hstate : (request.serve Storage.backend s).2 = (store, after) := hchange.trans (congrArg Prod.snd happly)
    rw [hstate] at hholds ⊢
    have hwritten := hafter.same (hstore.same hholds)
    exact ⟨⟨_, hstore, hwritten⟩, hfile hwritten, c, hresult⟩

theorem Sound.handle (h : Sound s) (r : Request) :
    Sound (handle Storage.backend r s).2 ∧ Leads s (handle Storage.backend r s).2 := by
  cases hupdate : r.update? with
  | none =>
      rw [handle_of_update?_none hupdate]
      exact ⟨h, fun path _ => .refl _ path⟩
  | some request =>
      rw [handle_of_update? hupdate]
      obtain ⟨hsound, hleads, -⟩ := h.serve (isWellFormed_of_update? hupdate)
      exact ⟨hsound, hleads⟩

/-- What an answer in JSON with 200 shows is metrics that may be stored. -/
theorem Sound.answer (h : Sound s) (hanswer : (Http.handle Storage.backend r s).1 = .json 200 body) :
    ∃ ms : List Metric, payloads? r body = some (ms.map .ofMetric) ∧ ∀ m ∈ ms, m.isWellFormed := by
  cases hupdate : r.update? with
  | none =>
      obtain ⟨hpath, name, m, hget, rfl⟩ := stored_of_update?_none hupdate hanswer
      obtain ⟨c, hc, hwell⟩ := h
      rw [hc.get] at hget
      have hm := hwell m (Contents.mem_metrics_of_metric? (Except.ok.inj hget))
      refine ⟨[m], payloads?_single (by simp [hpath]) hm, by simpa using hm⟩
  | some request =>
      have hms := isWellFormed_of_update? hupdate
      obtain ⟨-, -, c, hresult⟩ := h.serve hms
      rw [handle_of_update? hupdate, hresult] at hanswer
      have hresults := Contents.isWellFormed_of_mem_mergeAll hms c
      exact ⟨_, payloads?_respond hupdate (Contents.length_mergeAll c _) hresults hanswer, hresults⟩

/-! ## From start to start -/

/-- Opening a store in memory leaves the disk alone. -/
theorem sound_of_openStorage (hdsn : config.dsn = none) (hopen : openStorage config w = (.ok storage, w')) :
    Sound (storage, w') ∧ w' = w := by
  unfold openStorage at hopen
  rw [hdsn] at hopen
  cases hpath : config.snapshotPath with
  | none =>
      rw [hpath] at hopen
      cases hopen
      exact ⟨⟨_, .alone _, Contents.isWellFormed_empty⟩, rfl⟩
  | some path =>
      rw [hpath] at hopen
      simp only at hopen
      generalize hopened : openSnapshot _ (.memory .fresh) w = outcome at hopen
      obtain ⟨result, store, after⟩ := outcome
      cases result with
      | error e => cases hopen
      | ok _ =>
          cases hopen
          obtain ⟨rfl, c, hc, hwell⟩ := inMemory_of_openSnapshot hopened
          exact ⟨⟨c, hc, hwell⟩, rfl⟩

theorem openStorage_of_openSnapshot {path : String} (hdsn : config.dsn = none)
    (hpath : config.snapshotPath = some path)
    (h : openSnapshot ⟨path, config.storeInterval, config.restore⟩ (.memory .fresh) w = (.ok (), storage, w')) :
    openStorage config w = (.ok storage, w') := by
  rw [openStorage, hdsn, hpath]
  simp only [h]
  rfl

theorem Sound.restart (h : Sound s) (hdsn : config.dsn = none) (hstep : lifetimeStep s (.restart config) = some t) :
    Sound t ∧ Leads s t := by
  obtain ⟨c, hc, hwell⟩ := h
  simp only [lifetimeStep] at hstep
  generalize hclosed : s.1.close s.2 = closed at hstep
  obtain ⟨result, closed, after⟩ := closed
  generalize hopened : openStorage config after = opened at hstep
  obtain ⟨result, final⟩ := opened
  cases result with
  | error e => cases hstep
  | ok storage =>
      cases hstep
      obtain ⟨hsound, rfl⟩ := sound_of_openStorage hdsn hopened
      exact ⟨hsound, fun path hpath => (hc.close hwell hclosed path hpath).1⟩

theorem Sound.step (h : Sound s) (hrestart : ∀ config, label = .restart config → config.dsn = none)
    (hstep : lifetimeStep s label = some t) : Sound t ∧ ((∀ disk, label ≠ .intrude disk) → Leads s t) := by
  cases label with
  | request r =>
      cases hstep
      obtain ⟨hsound, hleads⟩ := h.handle r
      exact ⟨hsound, fun _ => hleads⟩
  | dump =>
      obtain ⟨c, hc, hwell⟩ := h
      obtain ⟨⟨result, w⟩, hdump, rfl⟩ := Option.map_eq_some_iff.1 hstep
      exact ⟨⟨c, hc, hwell⟩, fun _ path hpath => (hc.dump hwell hdump path hpath).1⟩
  | pass now =>
      obtain ⟨c, hc, hwell⟩ := h
      cases hstep
      obtain ⟨hnext, hfile⟩ := hc.tick { s.2 with now }
      exact ⟨⟨c, hnext, hwell⟩, fun _ => hfile hwell⟩
  | intrude disk =>
      obtain ⟨c, hc, hwell⟩ := h
      cases hstep
      exact ⟨⟨c, hc, hwell⟩, fun hnever => absurd rfl (hnever disk)⟩
  | restart config =>
      obtain ⟨hsound, hleads⟩ := h.restart (hrestart config rfl) hstep
      exact ⟨hsound, fun _ => hleads⟩

theorem sound_of_run {first : Storage} (hdsn : config.dsn = none) (hopen : openStorage config w = (.ok first, w'))
    (hrestarts : ∀ next, .restart next ∈ labels → next.dsn = none)
    (hrun : stepwise lifetimeStep (first, w') labels = some s) : Sound s := by
  refine stepwise_keeps hrun (sound_of_openStorage hdsn hopen).1 fun s label t hlabel h hstep => ?_
  have hrestart : ∀ next, label = .restart next → next.dsn = none := by
    rintro next rfl
    exact hrestarts next hlabel
  exact (h.step hrestart hstep).1

/-- A collector opens a store in memory, with a snapshot file or without one, and then things happen to it: requests
with any bodies, snapshots, time that passes, others that write to the disk, and restarts. Then every metric in the
store has a name, and if it is a gauge, a finite value. Whatever happens next, unless others write to the disk, the
snapshot file is left alone or replaced by one that can be restored, and stays one if it was; a snapshot that succeeds,
also the last one before the store is closed, can be restored. What an answer with 200 shows is metrics that may be
stored. -/
theorem only_wellFormed_stored {first : Storage} (hdsn : config.dsn = none)
    (hopen : openStorage config w = (.ok first, w')) (hrestarts : ∀ next, .restart next ∈ labels → next.dsn = none)
    (hrun : stepwise lifetimeStep (first, w') labels = some s) :
    (∃ ms, s.1.getAll s.2 = .ok ms ∧ (∀ m ∈ ms, m.name ≠ "" ∧ ∀ x, m.sample = .gauge x → x.isFinite = true) ∧
      ∀ name m, s.1.get name s.2 = .ok (some m) → m ∈ ms) ∧
    (∀ path ∈ s.1.path?,
      (∀ label t, (∀ disk, label ≠ .intrude disk) → (∀ next, label = .restart next → next.dsn = none) →
        lifetimeStep s label = some t →
        (t.2.disk.node? (.ofFileText path) = s.2.disk.node? (.ofFileText path) ∨ Restorable path t.2) ∧
        (Restorable path s.2 → Restorable path t.2)) ∧
      (∀ n after, s.1.dump? s.2 = some (.ok n, after) → Restorable path after) ∧
      ∀ closed after, s.1.close s.2 = (.ok (), closed, after) → Restorable path after) ∧
    ∀ r body, (handle Storage.backend r s).1 = .json 200 body →
      ∃ ps, payloads? r body = some ps ∧ ∀ p ∈ ps, ∃ m, p.toMetric = .ok m ∧ m.isWellFormed = true := by
  have hsound := sound_of_run hdsn hopen hrestarts hrun
  have ⟨c, hc, hwell⟩ := hsound
  refine ⟨⟨c.metrics, hc.getAll s.2, fun m hm => Metric.isWellFormed_iff.1 (hwell m hm), fun name m hget => ?_⟩,
    fun path hpath => ⟨fun label t hdisk hlabel hstep => ?_, fun n after hdump => ?_, fun closed after hclose => ?_⟩,
    fun r body hanswer => ?_⟩
  · rw [hc.get] at hget
    exact Contents.mem_metrics_of_metric? (Except.ok.inj hget)
  · have hfile := (hsound.step hlabel hstep).2 hdisk path hpath
    simp only [restorable_iff]
    exact ⟨hfile.imp And.left id, hfile.hasSnapshot⟩
  · exact restorable_iff.2 ((hc.dump hwell hdump path hpath).2 n rfl)
  · exact restorable_iff.2 ((hc.close hwell hclose path hpath).2 rfl)
  · obtain ⟨ms, hpayloads, hms⟩ := hsound.answer hanswer
    refine ⟨_, hpayloads, fun p hp => ?_⟩
    obtain ⟨m, hm, rfl⟩ := List.mem_map.1 hp
    exact ⟨m, Payload.toMetric_ofMetric (hms m hm), hms m hm⟩

/-- A collector that keeps a file up to date and restores from it. -/
def keeper : Config := ⟨"127.0.0.1:8080", ⟨300000000000⟩, some "m.json", true, none, "info", ⟨60000000000⟩⟩

/-- A count, after a blank and before an empty line. -/
def handed : String := "\x7b\"type\":\"counter\",\"name\":\"hits\",\"value\":\" 7\"\x7d\n\n"

def before : World := ⟨⟨Dict.empty.put ["m.json"] (.file (Text.utf8 handed))⟩, [], 0, []⟩

/-- What is restored from that. -/
def restored : List Metric := [.counter "hits" 7]

def opened : Storage := layered ⟨"m.json", ⟨300000000000⟩, some 300000, true⟩ (.ofMetrics restored)

/-- A gauge too large for a number, bytes that are no text, a snapshot, a file that others cut off, a restart, a count
that goes round, and a gauge. -/
def stormy : List LifetimeStep :=
  [.request (post "/update/" "\x7b\"id\":\"load\",\"type\":\"gauge\",\"value\":1e999\x7d"),
    .request ⟨"POST", "/updates/", [], [0xFF, 0x00]⟩, .dump,
    .intrude ⟨Dict.empty.put ["m.json"] (.file [0x7B])⟩, .pass 1000, .restart keeper,
    .request (post "/update/" (Payload.encode ⟨"hits", "counter", some Int64.maxValue, none⟩)),
    .request (post "/update/" (Payload.encode ⟨"load", "gauge", none, some (.ofRank true 0)⟩))]

/-- What is left after that. -/
def remaining : List Metric := [.counter "hits" (Int64.minValue + 6), .gauge "load" (.ofRank true 0)]

def question : Request := post "/value/" (Query.encode ⟨"load", "gauge"⟩)

def reply : Response := .json 200 (Payload.encode ⟨"load", "gauge", none, some (.ofRank true 0)⟩)

theorem only_wellFormed_stored_stormy : openStorage keeper before = (.ok opened, before) ∧
    ∃ s, stepwise lifetimeStep (opened, before) stormy = some s ∧ s.1.getAll s.2 = .ok remaining ∧
      (∀ m ∈ remaining, m.name ≠ "" ∧ ∀ x, m.sample = .gauge x → x.isFinite = true) ∧
      (∃ written, s.1.dump? s.2 = some (.ok 2, written) ∧ Restorable "m.json" written) ∧
      (handle Storage.backend question s).1 = reply ∧
      ∃ ps, payloads? question reply.body = some ps ∧ ∀ p ∈ ps, ∃ m, p.toMetric = .ok m ∧ m.isWellFormed = true := by
  have hopen : openStorage keeper before = (.ok opened, before) := by
    have hpath : Path.ofFileText "m.json" = ["m.json"] := by decide +kernel
    have hfile : before.disk.node? (.ofFileText "m.json") = some (.file (Text.utf8 handed)) := by rw [hpath]; rfl
    have hparent : before.disk.isDirectory (Path.ofFileText "m.json").parent := by rw [hpath]; rfl
    have hdecode : Snapshot.decode handed = .ok restored := by decide +kernel
    have hopened := openSnapshot_of_text hfile (Text.ofUtf8?_utf8 handed) hdecode hparent ⟨300000000000⟩
    exact openStorage_of_openSnapshot rfl rfl hopened
  have hseen : (stepwise lifetimeStep (opened, before) stormy).map (fun s =>
      (s.1.getAll s.2, s.1.path?, (s.1.dump? s.2).map (·.1), (handle Storage.backend question s).1))
      = some (.ok remaining, some "m.json", some (.ok 2), reply) := by decide +kernel
  have hrestarts : ∀ next, .restart next ∈ stormy → next.dsn = none := by simp [stormy, keeper]
  obtain ⟨s, hrun, hs⟩ := Option.map_eq_some_iff.1 hseen
  simp only [Prod.mk.injEq] at hs
  obtain ⟨hlisted, hpath, hdumped, hreply⟩ := hs
  obtain ⟨⟨ms, hms, hwell, -⟩, hsnapshots, hanswers⟩ := only_wellFormed_stored rfl hopen hrestarts hrun
  obtain rfl : ms = remaining := Except.ok.inj (hms.symm.trans hlisted)
  obtain ⟨⟨_, written⟩, hdump, rfl⟩ := Option.map_eq_some_iff.1 hdumped
  exact ⟨hopen, s, hrun, hms, hwell, ⟨written, hdump, (hsnapshots _ hpath).2.1 _ _ hdump⟩, hreply,
    hanswers question reply.body hreply⟩

end Collector

end PushMetrics
