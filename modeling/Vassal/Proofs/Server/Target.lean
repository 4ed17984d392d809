import Vassal.Proofs.Server.Signal
import Vassal.Proofs.Text.Digits

-- The texts that tell a server where a signal goes.
--
-- The first letter of a text decides on its first word. After the word of several targets there is
-- nothing, a plural, a number or the name of a farm, and each of them begins in its own way. So the
-- target can be read back.

namespace Vassal

namespace SignalTarget

-- One, all or a certain one of the processes of a kind.
def ofEnding (first all : SignalTarget) (nth : Nat → SignalTarget) : List Char → SignalTarget
  | [] => first
  | 's' :: _ => all
  | digits => nth (Text.number 10 digits)

def ofFarmEnding : List Char → SignalTarget
  | '_' :: name => farmNamed (String.ofList name)
  | digits => farmAt (Text.number 10 digits)

-- The target that a text is for, if it is for any.
def read (text : String) : SignalTarget :=
  match text.toList with
  | 'w' :: rest => ofEnding worker workers workerAt (rest.drop 5)
  | 'm' :: rest => ofEnding mule mules muleAt (rest.drop 3)
  | 'f' :: rest => ofFarmEnding (rest.drop 3)
  | 'a' :: _ => activeWorkers
  | _ => spooler

theorem ofEnding_toString (first all : SignalTarget) (nth : Nat → SignalTarget) (n : Nat) :
    ofEnding first all nth (toString n).toList = nth n := by
  obtain ⟨digit, more, hlist, hdigit⟩ := Text.toString_begins n
  unfold ofEnding
  split
  case h_1 hnil =>
    rw [hnil] at hlist
    cases hlist
  case h_2 hplural =>
    rw [hplural] at hlist
    cases hlist
    cases hdigit
  case h_3 => rw [Text.number_toString]

theorem ofFarmEnding_toString (n : Nat) : ofFarmEnding (toString n).toList = farmAt n := by
  obtain ⟨digit, more, hlist, hdigit⟩ := Text.toString_begins n
  unfold ofFarmEnding
  split
  case h_1 hname =>
    rw [hname] at hlist
    cases hlist
    cases hdigit
  case h_2 => rw [Text.number_toString]

theorem read_render (t : SignalTarget) : read t.render = t := by
  cases t with
  | worker | workers | activeWorkers | mule | mules | spooler => rfl
  | workerAt n =>
    rw [read, render, String.toList_append]
    exact ofEnding_toString worker workers workerAt n
  | muleAt n =>
    rw [read, render, String.toList_append]
    exact ofEnding_toString mule mules muleAt n
  | farmAt n =>
    rw [read, render, String.toList_append]
    exact ofFarmEnding_toString n
  | farmNamed name =>
    rw [read, render, String.toList_append]
    exact congrArg farmNamed String.ofList_toList

end SignalTarget

namespace Registration

variable {σ η : Type} [Server σ η]

-- Whether it is taken or not, all that a call does to the server is the request.
theorem server_left_run (r : Registration η) (p : Attached σ η) :
    (Attempt.left r.run p).server = Attempt.left r.request p.server := by
  unfold Attempt.left
  cases h : r.request p.server with
  | ok _ server => rw [run_of_taken h]
  | error e server => rw [run_of_refused h]

end Registration

-- A server is told the text of the target, and the texts of two targets are the same only if the
-- targets are.
theorem targets_told_apart :
    (∀ t t' : SignalTarget, t.render = t'.render ↔ t = t') ∧
    ∀ (σ η : Type) [Server σ η] (r : Registration η) (p : Attached σ η),
      (Attempt.left r.run p).server =
        Attempt.left (Server.registerSignal r.number (r.target.getD .worker).render r.handler)
          p.server := by
  refine ⟨fun t t' => ⟨fun h => ?_, congrArg SignalTarget.render⟩,
    fun σ η _ r p => r.server_left_run p⟩
  rw [← t.read_render, h, t'.read_render]

-- The farm whose name is a number is not the farm of that number.
example : (SignalTarget.farmNamed "3").render ≠ (SignalTarget.farmAt 3).render := by decide

end Vassal
