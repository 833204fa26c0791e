import Sightline.Settings.Options
import Sightline.World.Atlas
import Sightline.World.Exemptions

/-!
# The service

The service is an atlas with the spells that need no sight, set up by options.
-/
namespace Sightline

structure Service where
  atlas : Atlas := {}
  exemptions : Exemptions := {}

namespace Service

def ofOptions (o : Options) : Service :=
  { atlas := { sight := o.sight, height := o.height }, exemptions := .ofList o.spells }

/-- Closes all maps and forgets what was set for maps and spells; what is answered at all stays. -/
def clear (s : Service) : Service :=
  { atlas := { sight := s.atlas.sight, height := s.atlas.height } }

end Service

end Sightline
