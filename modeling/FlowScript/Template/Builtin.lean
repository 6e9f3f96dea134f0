import FlowScript.Template.Catalog

/-!
# The built-in catalog

The indicator functions that the node palette offers.
-/

namespace FlowScript

/-- The built-in templates. -/
def builtinItems : List CatalogItem := [
  { name := "RD"
    description := "Round N to D decimal places"
    dependencies := ["numpy"]
    code :=
      "import numpy as np\n" ++
      "def RD(N, D=3):\n" ++
      "    return np.round(N, D)\n" },
  { name := "RET"
    description := "The N-th value from the end of a series, the last one by default"
    dependencies := ["numpy"]
    code :=
      "import numpy as np\n" ++
      "def RET(S, N=1):\n" ++
      "    return np.array(S)[-N]\n" },
  { name := "ABS"
    description := "Absolute value"
    dependencies := ["numpy"]
    code :=
      "import numpy as np\n" ++
      "def ABS(S):\n" ++
      "    return np.abs(S)\n" },
  { name := "MAX"
    description := "Element-wise maximum of two series"
    dependencies := ["numpy"]
    code :=
      "import numpy as np\n" ++
      "def MAX(S1, S2):\n" ++
      "    return np.maximum(S1, S2)\n" },
  { name := "MIN"
    description := "Element-wise minimum of two series"
    dependencies := ["numpy"]
    code :=
      "import numpy as np\n" ++
      "def MIN(S1, S2):\n" ++
      "    return np.minimum(S1, S2)\n" },
  { name := "IF"
    description := "A where S is true, otherwise B"
    dependencies := ["numpy"]
    code :=
      "import numpy as np\n" ++
      "def IF(S, A, B):\n" ++
      "    return np.where(S, A, B)\n" },
  { name := "REF"
    description := "Shift a series down by N, leading values become NaN"
    dependencies := ["pandas"]
    code :=
      "import pandas as pd\n" ++
      "def REF(S, N=1):\n" ++
      "    return pd.Series(S).shift(N).values\n" },
  { name := "DIFF"
    description := "Difference to the value N steps back"
    dependencies := ["pandas"]
    code :=
      "import pandas as pd\n" ++
      "def DIFF(S, N=1):\n" ++
      "    return pd.Series(S).diff(N).values\n" },
  { name := "STD"
    description := "Rolling N-period population standard deviation"
    dependencies := ["pandas"]
    code :=
      "import pandas as pd\n" ++
      "def STD(S, N):\n" ++
      "    return pd.Series(S).rolling(N).std(ddof=0).values\n" },
  { name := "SUM"
    description := "Rolling N-period sum, cumulative sum when N is 0"
    dependencies := ["pandas"]
    code :=
      "import pandas as pd\n" ++
      "def SUM(S, N):\n" ++
      "    return pd.Series(S).rolling(N).sum().values if N > 0 else pd.Series(S).cumsum().values\n" },
  { name := "HHV"
    description := "Highest value over the last N periods"
    dependencies := ["pandas"]
    code :=
      "import pandas as pd\n" ++
      "def HHV(S, N):\n" ++
      "    return pd.Series(S).rolling(N).max().values\n" },
  { name := "LLV"
    description := "Lowest value over the last N periods"
    dependencies := ["pandas"]
    code :=
      "import pandas as pd\n" ++
      "def LLV(S, N):\n" ++
      "    return pd.Series(S).rolling(N).min().values\n" },
  { name := "MA"
    description := "Simple N-period moving average"
    dependencies := ["pandas"]
    code :=
      "import pandas as pd\n" ++
      "def MA(S, N):\n" ++
      "    return pd.Series(S).rolling(N).mean().values\n" },
  { name := "EMA"
    description := "Exponential moving average with span N"
    dependencies := []
    code :=
      "def EMA(S, N):\n" ++
      "    return pd.Series(S).ewm(span=N, adjust=False).mean().values\n" },
  { name := "SMA"
    description := "Smoothed moving average with alpha M/N"
    dependencies := ["pandas"]
    code :=
      "import pandas as pd\n" ++
      "def SMA(S, N, M=1):\n" ++
      "    return pd.Series(S).ewm(alpha=M / N, adjust=False).mean().values\n" },
  { name := "COUNT"
    description := "Number of periods among the last N where S is true"
    dependencies := ["SUM"]
    code :=
      "from .SUM import SUM\n" ++
      "def COUNT(S, N):\n" ++
      "    return SUM(S, N)\n" },
  { name := "CROSS"
    description := "True where S1 crosses above S2"
    dependencies := ["numpy"]
    code :=
      "import numpy as np\n" ++
      "def CROSS(S1, S2):\n" ++
      "    return np.concatenate(([False], np.logical_not((S1 > S2)[:-1]) & (S1 > S2)[1:]))\n" },
  { name := "MACD"
    description := "Moving average convergence divergence"
    dependencies := ["EMA", "RD"]
    code :=
      "from .EMA import EMA\n" ++
      "from .RD import RD\n" ++
      "def MACD(CLOSE, SHORT=12, LONG=26, M=9):\n" ++
      "    DIF = EMA(CLOSE, SHORT) - EMA(CLOSE, LONG)\n" ++
      "    DEA = EMA(DIF, M)\n" ++
      "    MACD = (DIF - DEA) * 2\n" ++
      "    return RD(DIF), RD(DEA), RD(MACD)\n" },
  { name := "KDJ"
    description := "Stochastic oscillator K, D and J lines"
    dependencies := ["LLV", "HHV", "EMA"]
    code :=
      "from .LLV import LLV\n" ++
      "from .HHV import HHV\n" ++
      "from .EMA import EMA\n" ++
      "def KDJ(CLOSE, HIGH, LOW, N=9, M1=3, M2=3):\n" ++
      "    RSV = (CLOSE - LLV(LOW, N)) / (HHV(HIGH, N) - LLV(LOW, N)) * 100\n" ++
      "    K = EMA(RSV, (M1 * 2 - 1))\n" ++
      "    D = EMA(K, (M2 * 2 - 1))\n" ++
      "    J = K * 3 - D * 2\n" ++
      "    return K, D, J\n" },
  { name := "BOLL"
    description := "Bollinger bands"
    dependencies := ["MA", "STD", "RD"]
    code :=
      "from .MA import MA\n" ++
      "from .STD import STD\n" ++
      "from .RD import RD\n" ++
      "def BOLL(CLOSE, N=20, P=2):\n" ++
      "    MID = MA(CLOSE, N)\n" ++
      "    UPPER = MID + STD(CLOSE, N) * P\n" ++
      "    LOWER = MID - STD(CLOSE, N) * P\n" ++
      "    return RD(UPPER), RD(MID), RD(LOWER)\n" }]

/-- The built-in catalog. -/
def Catalog.builtin : Except CatalogError Catalog :=
  Catalog.ofItems builtinItems

end FlowScript
