import HostRouting.Proofs.Compiler.Bandwidth
import HostRouting.Proofs.Reservation.Orders

/-!
# Compiling against a shuffled ledger

Where the sums of a ledger do not depend on the order, an intent is compiled as it is when the
ledger adds in the order of consumers, so what holds of compilations against a `Ledger` holds of
those against a `ShuffledLedger`.

Main facts: `compile_book` and `recompile_book`.
-/

namespace HostRouting

variable {σ : Type} [LinkStore σ]

/-- The stores with the book of the ledger in its place. -/
def Stores.book (s : Stores σ ShuffledLedger) : Stores σ Ledger :=
  ⟨s.links, s.hosts, s.resources.book⟩

/-- The outcome with the book of the ledger in its place. -/
def Outcome.book {α : Type} (o : Outcome σ ShuffledLedger α) : Outcome σ Ledger α :=
  ⟨o.result, o.stores.book, o.intent⟩

section

variable {l : ShuffledLedger}

/-- Constraints see the same of a shuffled ledger as of its book. -/
theorem ofStores_book (h : l.book.OrderFree) (links : σ) :
    Context.ofStores links l.book = Context.ofStores links l := by
  unfold Context.ofStores
  congr 1
  funext r
  exact (ShuffledLedger.fits_eq (h r.id) r.value).symm

theorem selectPath_book (h : l.book.OrderFree) (service : PathService σ) (links : σ)
    (hosts : HostDirectory) (i : FlowIntent) (src dst : ElementId) :
    selectPath service links hosts l.book i src dst =
      selectPath service links hosts l i src dst := by
  unfold selectPath
  rw [ofStores_book h]

theorem installBoth_book (h : l.book.OrderFree) (flavor : InstallableFlavor) (i : HostIntent)
    (there back : Path) (one two : Host) :
    installBoth flavor l.book i there back one two =
      ((installBoth flavor l i there back one two).1,
        (installBoth flavor l i there back one two).2.book) := by
  have hfirst : (reserve l i.base there.connectPoints).1.book =
      (reserve l.book i.base there.connectPoints).1 :=
    (ShuffledLedger.book_reserve fun _ _ r _ => h r.id).1
  have hboth := ShuffledLedger.book_reserve_both (c := i.base) h there.connectPoints
    back.connectPoints
  unfold installBoth install
  cases installable flavor i there one two with
  | error e => exact Prod.ext rfl hfirst.symm
  | ok forward => cases installable flavor i back two one <;> exact Prod.ext rfl hboth.symm

end

variable {s : Stores σ ShuffledLedger}

theorem selectRoutes_book (h : s.resources.book.OrderFree) (service : PathService σ)
    (i : HostIntent) : selectRoutes service s.book i = selectRoutes service s i := by
  unfold selectRoutes Stores.book
  dsimp only
  rw [selectPath_book h, selectPath_book h]

theorem compileFresh_book (h : s.resources.book.OrderFree) (c : Compiler σ) (i : HostIntent) :
    compileFresh c s.book i = (compileFresh c s i).book := by
  unfold compileFresh
  dsimp only
  rw [selectRoutes_book h]
  cases selectRoutes c.paths s i with
  | error e => rfl
  | ok paths =>
    obtain ⟨there, back⟩ := paths
    dsimp only [Stores.book, bind, Except.bind]
    cases endHosts s.hosts i with
    | error e => rfl
    | ok hosts =>
      obtain ⟨one, two⟩ := hosts
      dsimp only
      cases contribute c.config s.links { i with paths := some (there, back) } .add with
      | error e => rfl
      | ok links =>
        dsimp only
        rw [installBoth_book h]
        rfl

/-- Where the order does not matter, an intent is compiled against a shuffled ledger as it is
against its book. -/
theorem compile_book (h : s.resources.book.OrderFree) (c : Compiler σ) (i : HostIntent) :
    compile c s.book i = (compile c s i).book := by
  unfold compile
  split
  · rfl
  · dsimp only [Stores.book]
    cases retract c.config s.links i with
    | error e => rfl
    | ok cleared => exact compileFresh_book (s := { s with links := cleared.1 }) h c cleared.2

/-- What `recompile_bandwidth_iff` says of a second compilation is so against a shuffled ledger too,
when the order matters neither before nor after the first one. -/
theorem recompile_book {c : Compiler σ} {i : HostIntent} (h : s.resources.book.OrderFree)
    (hafter : (compile c s i).stores.resources.book.OrderFree) :
    let first := compile c s.book i
    compile c first.stores first.intent =
      (compile c (compile c s i).stores (compile c s i).intent).book := by
  intro first
  have hfirst : first = (compile c s i).book := compile_book h c i
  rw [hfirst]
  exact compile_book hafter c _

end HostRouting
