import RoomLedger.Proofs.KeyProvenance

namespace RoomLedger

theorem Change.eq_ok_of_isSome {ε α : Type} {change : Change ε α} {db : Database}
    (accepted : (change db).1.toOption.isSome) : ∃ a, change db = (.ok a, (change db).2) := by
  cases run : change db with
  | mk result after =>
    rw [run] at accepted
    cases result with
    | error e => cases accepted
    | ok a => exact ⟨a, rfl⟩

namespace Chain

open Database

variable {ω : Type} {total : Int} {config : Config} {holds : Database → Prop} {first last : Chain ω}
  {genesis : Genesis} {observers : List ω} {answers : List (Except ChainError Unit)} {db : Database}

-- Operations are performed on the database that a run has led to, and on those inside of the
-- transactions that can be pushed there.
inductive Reaches (c : Chain ω) : Database → Prop where
  | between : Reaches c c.db
  | examined {time : Timestamp} {db : Database} {results : List Outcome}
      (examined : c.Examined time db results) : Reaches c db

theorem Reaches.standing (reaches : last.Reaches db) (steady : last.Steady total) : db.Standing total := by
  cases reaches with
  | between => exact steady.standing
  | examined examined => exact examined.standing steady

theorem reached_standing [Observer ω] (started : start config genesis observers = .ok first)
    (run : Run first answers last) (reaches : last.Reaches db) : db.Standing genesis.granted :=
  reaches.standing (run_steady (start_steady started).1 run)

theorem run_config [Observer ω] (started : start config genesis observers = .ok first)
    (run : Run first answers last) : last.config = config := by
  obtain ⟨idle, fixed, orderly⟩ := start_orderly started
  obtain ⟨history, isTrue⟩ := orderly_lasts.isTrue idle fixed orderly run
  cases isTrue with
  | idle idle => exact idle.config
  | busy busy => exact busy.config

theorem Lasting.push (lasting : Lasting total config holds) (standing : db.Standing total) (given : holds db) :
    holds db.push :=
  lasting.same _ _ standing.grounded.sound (push_sound standing.grounded.sound) (contents_push db) given

theorem Lasting.operations (lasting : Lasting total config holds) (operations : List Operation) (time : Timestamp) :
    (operations.foldlM (Transaction.performNext config time) []).Leads total fun db after =>
      holds db → holds after := by
  have transition := Transition.of_kept lasting.same
  refine Change.foldlM_leads transition operations (fun results op _ => ?_) []
  exact ((lasting.leads op time results).nested transition).bind transition fun _ => Change.pure_leads transition _

theorem Lasting.reached [Observer ω] (lasting : Lasting genesis.granted config holds)
    (started : start config genesis observers = .ok first) (given : holds first.db) (run : Run first answers last)
    (reaches : last.Reaches db) : holds db := by
  obtain ⟨idle, fixed, -⟩ := start_orderly started
  have now := lasting.run idle fixed given run
  have standing := reached_standing started run .between
  cases reaches with
  | between => exact now
  | examined examined =>
    cases examined with
    | alone => exact lasting.push standing now
    | @within operations results db performed =>
      rw [run_config started run] at performed
      have left := (lasting.operations operations _).proper.standing standing.push performed
      exact lasting.push left
        ((lasting.operations operations _).leads _ _ _ standing.push performed (lasting.push standing now))

theorem dated_lasts : Lasting total config Database.Dated := by
  refine ⟨?_, ?_, ?_⟩
  · intro db after _ _ same dated
    exact dated.congr (by rw [same]) (by rw [same])
  · intro db after number time standing dated advanced
    obtain ⟨head, -, puts, -⟩ := modify_eq_ok standing.grounded.sound advanced
    exact dated.congr (contents_congr (puts.others _ (by simp))) (contents_congr (puts.others _ (by simp)))
  · intro db time fee results op outcome after standing dated performed
    exact (performed.lawful standing.grounded.sound).dated dated

theorem reached_dated [Observer ω] (started : start config genesis observers = .ok first)
    (run : Run first answers last) (reaches : last.Reaches db) : db.Dated :=
  dated_lasts.reached started (start_dated started) run reaches

end Chain

end RoomLedger
