import ChordScript.Yaml.Node
import ChordScript.Proofs.Rows

namespace ChordScript.Yaml

namespace Reader

variable {r : Reader} {ts : List Token} {fuel : Nat}

end Reader

end ChordScript.Yaml
