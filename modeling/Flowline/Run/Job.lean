import Flowline.Chat.Basic
import Flowline.Event.Basic

/-! Jobs: what a run does, as a tree. A job ends with a result, reports an event and goes on, or
asks its surroundings for something and goes on with the answer, whatever it is. Nothing is said
here about who answers or how long it takes, so one job covers every behaviour of the services
around it. -/

namespace Flowline

inductive Query where
  | flow (id : String)
  | chat (request : ChatRequest)
  | call (call : ToolCall)
deriving Inhabited

namespace Query

def Content : Query → Type
  | flow _ => Document
  | chat _ => String
  | call _ => Json

abbrev Answer (q : Query) : Type := Except Failure q.Content

end Query

/-- A job with a result. What follows a question is there for every answer to it. -/
inductive Job (α : Type) where
  | done (a : α)
  | emit (e : Event) (rest : Job α)
  | ask (q : Query) (rest : q.Answer → Job α)

namespace Job

variable {α β γ : Type}

instance [Inhabited α] : Inhabited (Job α) := ⟨done default⟩

def bind : Job α → (α → Job β) → Job β
  | done a, f => f a
  | emit e r, f => emit e (bind r f)
  | ask q r, f => ask q fun a => bind (r a) f

instance : Monad Job where
  pure := done
  bind := bind

def report (e : Event) : Job Unit := emit e (done ())

def reportAll (es : List Event) : Job Unit := es.forM report

def query (q : Query) : Job q.Answer := ask q done

/-! ## Laws -/

@[simp] theorem pure_eq (a : α) : (pure a : Job α) = done a := rfl
@[simp] theorem done_bind (a : α) (f : α → Job β) : done a >>= f = f a := rfl
@[simp] theorem emit_bind (e : Event) (r : Job α) (f : α → Job β) :
    emit e r >>= f = emit e (r >>= f) := rfl
@[simp] theorem ask_bind (q : Query) (r : q.Answer → Job α) (f : α → Job β) :
    ask q r >>= f = ask q fun a => r a >>= f := rfl

theorem bind_done (t : Job α) : t >>= done = t := by
  induction t with
  | done a => rfl
  | emit e r ih => exact congrArg (emit e) ih
  | ask q r ih => exact congrArg (ask q) (funext ih)

theorem bind_assoc (t : Job α) (f : α → Job β) (g : β → Job γ) :
    t >>= f >>= g = t >>= fun a => f a >>= g := by
  induction t with
  | done a => rfl
  | emit e r ih => exact congrArg (emit e) ih
  | ask q r ih => exact congrArg (ask q) (funext ih)

instance : LawfulMonad Job := LawfulMonad.mk' Job bind_done (fun _ _ => rfl) bind_assoc

end Job

end Flowline
