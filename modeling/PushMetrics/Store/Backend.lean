import PushMetrics.Store.Storage

/-!
# Backends

What a manager needs from a store whose state has type `σ`. Every operation may change the state, so that
stores which fail now and then are backends too.
-/

namespace PushMetrics

structure Backend (σ : Type) where
  get : String → σ → Except StorageError (Option Metric) × σ
  getAll : σ → Except StorageError (List Metric) × σ
  apply : Change → σ → Except StorageError Unit × σ
  ping : σ → Except StorageError Unit × σ

def Memory.backend : Backend Memory where
  get name m := (m.get name, m)
  getAll m := (m.getAll, m)
  apply change m := match m.apply change with
    | .ok m => (.ok (), m)
    | .error e => (.error e, m)
  ping m := (m.whenOpen (), m)

def Storage.backend : Backend (Storage × World) where
  get name s := (s.1.get name s.2, s)
  getAll s := (s.1.getAll s.2, s)
  apply change s := s.1.apply change s.2
  ping s := (s.1.ping s.2, s)

end PushMetrics
