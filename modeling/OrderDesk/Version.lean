/-! # Versions of the parts -/

namespace OrderDesk

/-- The version of the order model and of the server, which are released together. -/
def version : String := "0.3.1"

end OrderDesk
