import Coap.Edited
import Coap.Options
import Coap.Text.Path

/-!
# Replacing options

Options that a message has one value of (its token, its content type, its path) are set by taking
out what is there and adding the new value. The value is made first, so that a value that no
option can have changes nothing; what the addition refuses, it refuses after the old value is gone.
-/

namespace Coap.Options

/-- Adds options one after the other, up to the first that is refused. -/
def addAll (options : Options) (code : Code) : List Opt → Edited Options
  | [] => .done options
  | o :: rest =>
    match options.add code o with
    | .ok options' => addAll options' code rest
    | .error fault => .stopped options fault

/-- Puts an option in the place of those of its name. -/
def replace (options : Options) (code : Code) (o : Except Fault Opt) : Edited Options :=
  match o with
  | .ok o => (options.without [o.name]).addAll code [o]
  | .error fault => .stopped options fault

/-- Adds an option that could be made. -/
def append (options : Options) (code : Code) (o : Except Fault Opt) : Edited Options :=
  match o with
  | .ok o => options.addAll code [o]
  | .error fault => .stopped options fault

/-- Puts the segments of a path, percent decoded, in the place of the old ones. -/
def setPath (options : Options) (code : Code) (path : String) : Edited Options :=
  match (Path.segments path).mapM (Opt.text .uriPath) with
  | .ok segments => (options.without [.uriPath]).addAll code segments
  | .error fault => .stopped options fault

end Coap.Options
