-- What a client does makes no file shorter either: a session that is gone on with has all
-- files as long as they were, or longer. Bounds that hold in the end held all along.
import PageStore.Proofs.Pool.Lengths
import PageStore.Proofs.Session.Effects

namespace PageStore

open Storage

namespace Session

open Pool

/-- The actions on tables, rows, pages and transactions of which it is told what they do to the pool. -/
def Told : Action → Prop
  | .createTable .. | .fetch .. | .insert .. | .poolInsert .. | .delete .. | .poolDelete .. => True
  | .scan .. | .nextRows .. | .openScan .. | .rewind .. => True
  | .flush .. | .flushAll | .discard .. | .release .. | .commit .. | .abort .. => True
  | _ => False

theorem grows_of_puts {tx : TxId} {fields : List Field} {p q : Pool} {r : Except Error Answer}
    (h : Puts tx fields p r q) (hp : Faithful p) : p.storage.Grows q.storage := by
  obtain ⟨r', -, ⟨row, -, -, hin⟩ | ⟨-, rfl⟩⟩ := h
  · exact lasts_of_inserts (lasting_grows p.storage) hin hp (.refl _)
  · exact .refl _

theorem grows_of_does {p q : Pool} {a : Action} {r : Except Error Answer} (told : Told a) (h : Does p a r q)
    (hp : Faithful p) (made : ∀ name columns schema, a = .createTable name columns →
      p.storage.Grows (Storage.createTable name schema p.storage).2) : p.storage.Grows q.storage := by
  have grows_of_eq : q.storage = p.storage → p.storage.Grows q.storage := fun heq => heq ▸ .refl _
  have lasting := lasting_grows p.storage
  cases a
  case createTable name columns =>
    rcases h with rfl | ⟨schema, rfl⟩
    · exact .refl _
    · exact made name columns schema rfl
  case fetch => exact grows_of_eq (Looks.catalog h.1)
  case insert => exact grows_of_puts h hp
  case poolInsert => exact grows_of_puts h hp
  case delete => exact grows_of_eq (storage_of_deletes h)
  case poolDelete tx place fields columns =>
    cases place with
    | none => exact grows_of_eq (Looks.catalog h.2)
    | some place => exact grows_of_eq (storage_of_deletes h)
  case scan => exact grows_of_eq (Looks.catalog h)
  case nextRows =>
    obtain ⟨tx, hlooks⟩ := h
    exact grows_of_eq (Looks.catalog hlooks)
  case openScan => exact grows_of_eq (congrArg storage h)
  case rewind => exact grows_of_eq (congrArg storage h)
  case flush tx =>
    obtain ⟨-, rfl⟩ := Prod.mk.inj h
    exact flush_lasts lasting tx hp (.refl _)
  case flushAll =>
    obtain ⟨-, rfl⟩ := Prod.mk.inj h
    exact flushAll_lasts lasting hp (.refl _)
  case discard id =>
    obtain ⟨-, rfl⟩ := h
    exact grows_of_eq (storage_discard p id)
  case release =>
    obtain ⟨-, rfl⟩ := h
    exact .refl _
  case commit tx =>
    obtain ⟨-, rfl⟩ := Prod.mk.inj h
    exact complete_lasts lasting tx .commit hp (.refl _)
  case abort tx =>
    obtain ⟨-, rfl⟩ := Prod.mk.inj h
    exact complete_lasts lasting tx .abort hp (.refl _)
  all_goals exact absurd told id

end Session

end PageStore
